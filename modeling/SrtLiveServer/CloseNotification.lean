import SrtLiveServer.PublisherRole
import SrtLiveServer.Trace

/-! The `on_connect` and `on_close` webhooks of a `CSLSRole` of any kind, over every path
that tears the role down: a close is reported once for each admission, and for nothing else. -/
namespace SrtLiveServer.CloseNotification
open Bytes PublisherAuth

/-- What libsrt reports of a connection: its peer and `SRTO_STREAMID`. -/
structure Socket where
  peer : Option (Text × Nat)
  streamid : Text

structure Role where
  roleName : Text
  httpUrl : Text
  streamid : Text
  peerIp : Text
  peerPort : Nat
  /-- What the `get_peer_info` of a relay answers instead. -/
  server : Option (Text × Nat)
  httpPassed : Bool
  httpFuture : Option HttpFuture
  deadline : Nat
  state : RoleState
  srt : Option Socket
  kickRequested : Bool

/-- `passed` carries whether the socket was still open. -/
inductive Event where
  | dispatched (event : OnEvent)
  | passed (isOpen : Bool)
deriving DecidableEq

def Role.getPeerInfo (role : Role) : Option (Text × Nat) := role.server.or (role.srt.bind Socket.peer)

def Role.getStreamid (role : Role) : Text :=
  if role.streamid ≠ [] then role.streamid else (role.srt.map Socket.streamid).getD role.streamid

/-- The role with the peer and the stream id that a webhook URL reads, filled in on demand. -/
def Role.identify (role : Role) : Role :=
  let peer := if role.peerIp = [] then role.getPeerInfo.getD (role.peerIp,role.peerPort) else (role.peerIp,role.peerPort)
  {role with streamid := role.getStreamid,peerIp := peer.1,peerPort := peer.2}

def Role.onEventUrl (role : Role) (event : OnEvent) : Text :=
  role.httpUrl ++ ascii "?on_event=" ++ event.name ++ ascii "&role_name=" ++ urlEncode role.roleName ++
    ascii "&srt_url=" ++ urlEncode role.streamid ++ ascii "&remote_ip=" ++ role.peerIp ++
    ascii "&remote_port=" ++ ascii (toString role.peerPort)

/-- In each of these functions `threw` says whether `post_async` throws. -/
def Role.onConnect (role : Role) (threw : Bool) (now : Nat) : Role × List Event :=
  if role.httpUrl = [] then (role,[])
  else
    let role := role.identify
    if urlMaxLen ≤ (role.onEventUrl .connect).length ∨ threw = true then (role,[])
    else ({role with httpFuture := some ⟨.connect,none⟩,deadline := now + httpAuthorizationDeadlineMs},[.dispatched .connect])

def Role.onClose (role : Role) (threw : Bool) : Role × List Event :=
  if role.httpPassed = false ∨ role.httpUrl = [] then (role,[])
  else
    let role := role.identify
    if urlMaxLen ≤ (role.onEventUrl .close).length ∨ threw = true then (role,[])
    else ({role with httpFuture := some ⟨.close,none⟩},[.dispatched .close])

def Role.invalidSrt (role : Role) (threw : Bool) : Role × List Event :=
  match role.srt with
  | none => (role,[])
  | some _ => ({role with srt := none} : Role).onClose threw

def Role.markInvalid (role : Role) (threw : Bool) : Role × List Event := ({role with state := .invalid} : Role).invalidSrt threw

def Role.uninit (role : Role) (threw : Bool) : Role × List Event :=
  let idle := {role with httpFuture := none,deadline := 0}
  if idle.state = .uninit then (idle,[]) else ({idle with state := .uninit} : Role).invalidSrt threw

def Role.getState (role : Role) (threw idle broken : Bool) : Role × List Event :=
  if role.state = .invalid then (role,[])
  else if role.kickRequested = true then role.markInvalid threw
  else if idle = true then role.markInvalid threw
  else if broken = true then role.markInvalid threw
  else (role,[])

def Role.checkHttpPassed (role : Role) (threw : Bool) (now : Nat) : Role × List Event :=
  if role.httpPassed = true then (role,[])
  else if 0 < role.deadline ∧ role.deadline ≤ now then
    ({role with httpFuture := none,deadline := 0} : Role).markInvalid threw
  else match role.httpFuture with
    | none => ({role with deadline := 0} : Role).markInvalid threw
    | some ⟨_,none⟩ => (role,[])
    | some ⟨_,some response⟩ =>
      let settled := {role with httpFuture := none,deadline := 0}
      if response.success = false ∨ response.statusCode ≠ 200 then settled.invalidSrt threw
      else ({settled with httpPassed := true},[.passed role.srt.isSome])

/-- The webhook answers a request in flight. -/
def Role.complete (role : Role) (response : AsyncHttpResponse) : Role :=
  match role.httpFuture with
  | some ⟨event,none⟩ => {role with httpFuture := some ⟨event,some response⟩}
  | _ => role

/-- `invalidSrt` is how the read and write handlers give up a connection. -/
inductive Op where
  | onConnect (now : Nat)
  | complete (response : AsyncHttpResponse)
  | checkHttpPassed (now : Nat)
  | markInvalid
  | invalidSrt
  | requestKick
  | getState (idle broken : Bool)
  | uninit

structure Call where
  op : Op
  threw : Bool

def Role.step (role : Role) (call : Call) : Role × List Event :=
  match call.op with
  | .onConnect now => role.onConnect call.threw now
  | .complete response => (role.complete response,[])
  | .checkHttpPassed now => role.checkHttpPassed call.threw now
  | .markInvalid => role.markInvalid call.threw
  | .invalidSrt => role.invalidSrt call.threw
  | .requestKick => ({role with kickRequested := true},[])
  | .getState idle broken => role.getState call.threw idle broken
  | .uninit => role.uninit call.threw

def advance (before : Role × List Event) (call : Call) : Role × List Event :=
  ((before.1.step call).1,before.2 ++ (before.1.step call).2)

def run (start : Role) (calls : List Call) : Role × List Event := calls.foldl advance (start,[])

/-- After `init` and `set_http_url` with a URL. -/
structure Role.Fresh (role : Role) : Prop where
  url : role.httpUrl ≠ []
  shut : role.httpPassed = false
  unasked : role.httpFuture = none
  inited : role.state = .inited

/-- Calls that tear the role down; `get_state` does so for a kick, an idle stream or a
broken socket. -/
def Op.TearsDown (role : Role) : Op → Prop
  | .markInvalid | .invalidSrt | .uninit => True
  | .getState idle broken => role.kickRequested = true ∨ idle = true ∨ broken = true
  | _ => False

def Op.asks : Op → Bool
  | .onConnect _ => true
  | _ => false

section Identify

/-- The peer and the stream id are filled in, as far as they are known. -/
structure Role.Identified (role : Role) : Prop where
  peer : role.peerIp = [] → role.getPeerInfo.getD (role.peerIp,role.peerPort) = (role.peerIp,role.peerPort)
  streamid : role.streamid = [] → (role.srt.map Socket.streamid).getD [] = []

variable {role : Role}

theorem Role.identify_identified (role : Role) : role.identify.Identified := by
  constructor
  · show (if role.peerIp = [] then role.getPeerInfo.getD (role.peerIp,role.peerPort) else (role.peerIp,role.peerPort)).1 = [] →
      role.getPeerInfo.getD (if role.peerIp = [] then role.getPeerInfo.getD (role.peerIp,role.peerPort) else (role.peerIp,role.peerPort)) =
        if role.peerIp = [] then role.getPeerInfo.getD (role.peerIp,role.peerPort) else (role.peerIp,role.peerPort)
    by_cases unknown : role.peerIp = []
    · rw [if_pos unknown]
      intro _
      cases role.getPeerInfo <;> rfl
    · rw [if_neg unknown]
      exact fun none => absurd none unknown
  · show role.getStreamid = [] → (role.srt.map Socket.streamid).getD [] = []
    unfold Role.getStreamid
    split
    · rename_i known
      exact fun none => absurd none known
    · rename_i unknown
      rw [Classical.not_not.mp unknown]
      exact id

theorem Role.Identified.identify (identified : role.Identified) : role.identify = role := by
  have streamid : role.getStreamid = role.streamid := by
    unfold Role.getStreamid
    split
    · rfl
    · rename_i unknown
      have unknown := Classical.not_not.mp unknown
      rw [unknown]
      exact identified.streamid unknown
  have peer : (if role.peerIp = [] then role.getPeerInfo.getD (role.peerIp,role.peerPort) else (role.peerIp,role.peerPort)) =
      (role.peerIp,role.peerPort) := by
    split
    · rename_i unknown
      exact identified.peer unknown
    · rfl
  unfold Role.identify
  dsimp only
  rw [streamid,peer]

theorem Role.Identified.close (identified : role.Identified) (state : RoleState) (future : Option HttpFuture) (deadline : Nat) :
    ({role with srt := none,state := state,httpFuture := future,deadline := deadline} : Role).Identified := by
  refine ⟨fun unknown => ?_,fun _ => rfl⟩
  have same := identified.peer unknown
  show (role.server.or none).getD (role.peerIp,role.peerPort) = (role.peerIp,role.peerPort)
  cases server : role.server with
  | none => rfl
  | some peer =>
    rw [Role.getPeerInfo,server] at same
    exact same

/-- The URL of a close is shorter than the URL of the connect. -/
theorem Role.close_shorter (role : Role) :
    (role.onEventUrl .close).length < (role.onEventUrl .connect).length := by
  have names : OnEvent.close.name.length < OnEvent.connect.name.length := by decide
  simp only [Role.onEventUrl,List.length_append]
  omega

end Identify

section Runs

/-- A close follows a success that was recorded with the socket open. -/
def Justifies (past : List Event) : Event → Prop
  | .dispatched .close => .passed true ∈ past
  | _ => True

/-- A role whose peer and stream id are known, with a URL that a close fits in. -/
structure Role.Reachable (role : Role) : Prop where
  identified : role.Identified
  fits : (role.onEventUrl .close).length < urlMaxLen

structure Role.Sound (role : Role) (log : List Event) : Prop where
  url : role.httpUrl ≠ []
  justified : Trace.Justified Justifies [] log
  once : log.count (.dispatched .close) ≤ 1
  unclosed : role.srt ≠ none → .dispatched .close ∉ log
  opened : role.httpPassed = true → role.Reachable ∧ (role.srt ≠ none → .passed true ∈ log)
  recorded : ∀ isOpen, .passed isOpen ∈ log → role.httpPassed = true
  asked : role.httpPassed = false → ∀ future, role.httpFuture = some future → future.event = .connect ∧ role.Reachable

variable {role : Role} {log : List Event}

theorem Role.Fresh.sound (fresh : role.Fresh) : role.Sound [] where
  url := fresh.url
  justified := trivial
  once := Nat.zero_le _
  unclosed := fun _ => List.not_mem_nil
  opened := fun passed => by rw [fresh.shut] at passed; cases passed
  recorded := fun _ among => by cases among
  asked := fun _ future asked => by rw [fresh.unasked] at asked; cases asked

/-- Nothing that the invariant is about has changed, but a request may have been dropped. -/
theorem Role.Sound.idle (sound : role.Sound log) (future : Option HttpFuture) (kept : future = none ∨ future = role.httpFuture)
    (deadline : Nat) (state : RoleState) (kick : Bool) :
    ({role with httpFuture := future,deadline := deadline,state := state,kickRequested := kick} : Role).Sound log where
  url := sound.url
  justified := sound.justified
  once := sound.once
  unclosed := sound.unclosed
  opened := fun passed =>
    let ⟨reachable,recorded⟩ := sound.opened passed
    ⟨⟨⟨reachable.identified.peer,reachable.identified.streamid⟩,reachable.fits⟩,recorded⟩
  recorded := sound.recorded
  asked := by
    intro shut asked same
    obtain none | same' := kept
    · rw [show future = some asked from same] at none
      cases none
    · obtain ⟨connect,reachable⟩ := sound.asked shut asked (same'.symm.trans same)
      exact ⟨connect,⟨reachable.identified.peer,reachable.identified.streamid⟩,reachable.fits⟩

theorem Role.Sound.quiet (sound : role.Sound log) : role.Sound (log ++ []) := by
  rw [List.append_nil]
  exact sound

theorem Role.Sound.onConnect (sound : role.Sound log) (threw : Bool) (now : Nat) :
    (role.onConnect threw now).1.Sound (log ++ (role.onConnect threw now).2) := by
  unfold Role.onConnect
  rw [if_neg sound.url]
  have known : role.httpPassed = true → role.identify = role := fun passed => (sound.opened passed).1.identified.identify
  have asked : ∀ future, role.httpFuture = some future → role.identify = role := by
    intro future asked
    cases shut : role.httpPassed with
    | true => exact known shut
    | false => exact (sound.asked shut future asked).2.identified.identify
  have identified : role.identify.Sound log := by
    refine ⟨sound.url,sound.justified,sound.once,sound.unclosed,fun passed => ?_,sound.recorded,fun shut future same => ?_⟩
    · rw [known passed]
      exact sound.opened passed
    · rw [asked future same]
      exact sound.asked shut future same
  dsimp only
  split
  · exact Role.Sound.quiet identified
  · rename_i sent
    have fits : (role.identify.onEventUrl .connect).length < urlMaxLen := Nat.lt_of_not_le fun long => sent (.inl long)
    have reachable : role.identify.Reachable := ⟨role.identify_identified,Nat.lt_trans role.identify.close_shorter fits⟩
    refine ⟨sound.url,sound.justified.append ⟨trivial,trivial⟩,?_,fun isOpen => ?_,fun passed => ?_,fun isOpen among => ?_,?_⟩
    · rw [List.count_append]
      exact sound.once
    · simpa using sound.unclosed isOpen
    · refine ⟨⟨⟨reachable.identified.peer,reachable.identified.streamid⟩,reachable.fits⟩,fun isOpen => ?_⟩
      exact List.mem_append_left _ ((sound.opened passed).2 isOpen)
    · exact sound.recorded isOpen (by simpa using among)
    · intro _ future same
      cases same
      exact ⟨rfl,⟨reachable.identified.peer,reachable.identified.streamid⟩,reachable.fits⟩

/-- All that `invalid_srt` can do: the socket goes, and the close of an admitted role is
reported, its URL known and short enough. -/
theorem Role.Sound.invalidSrt_cases (sound : role.Sound log) (threw : Bool) :
    (role.srt = none ∧ role.invalidSrt threw = (role,[])) ∨
      (role.srt ≠ none ∧ role.httpPassed = false ∧ role.invalidSrt threw = ({role with srt := none},[])) ∨
      (role.srt ≠ none ∧ role.httpPassed = true ∧ threw = true ∧ role.invalidSrt threw = ({role with srt := none},[])) ∨
      (role.srt ≠ none ∧ role.httpPassed = true ∧ threw = false ∧
        role.invalidSrt threw = ({role with srt := none,httpFuture := some ⟨.close,none⟩},[.dispatched .close])) := by
  unfold Role.invalidSrt
  cases socket : role.srt with
  | none => exact .inl ⟨rfl,rfl⟩
  | some srt =>
    right
    have some : Option.some srt ≠ none := Option.some_ne_none srt
    dsimp only
    unfold Role.onClose
    by_cases passed : role.httpPassed = true
    · right
      have closed := (sound.opened passed).1.identified.close role.state role.httpFuture role.deadline
      have fits := (sound.opened passed).1.fits
      have noRefusal : ¬ (role.httpPassed = false ∨ role.httpUrl = []) := by simp [passed,sound.url]
      rw [if_neg noRefusal,closed.identify]
      cases threw with
      | true => exact .inl ⟨some,passed,rfl,if_pos (.inr rfl)⟩
      | false =>
        refine .inr ⟨some,passed,rfl,if_neg fun refused => ?_⟩
        obtain long | threw := refused
        · exact absurd long (Nat.not_le_of_lt fits)
        · cases threw
    · have shut : role.httpPassed = false := by simpa using passed
      exact .inl ⟨some,shut,if_pos (.inl shut)⟩

theorem Role.Sound.close (sound : role.Sound log) : ({role with srt := none} : Role).Sound log where
  url := sound.url
  justified := sound.justified
  once := sound.once
  unclosed := fun still => absurd rfl still
  opened := fun passed =>
    have reachable := (sound.opened passed).1
    ⟨⟨reachable.identified.close role.state role.httpFuture role.deadline,reachable.fits⟩,fun still => absurd rfl still⟩
  recorded := sound.recorded
  asked := fun shut future same =>
    have ⟨connect,reachable⟩ := sound.asked shut future same
    ⟨connect,reachable.identified.close role.state role.httpFuture role.deadline,reachable.fits⟩

theorem Role.Sound.invalidSrt (sound : role.Sound log) (threw : Bool) :
    (role.invalidSrt threw).1.Sound (log ++ (role.invalidSrt threw).2) := by
  obtain ⟨_,result⟩ | ⟨_,_,result⟩ | ⟨_,_,_,result⟩ | ⟨isOpen,passed,_,result⟩ := sound.invalidSrt_cases threw
  · rw [result]
    exact Role.Sound.quiet sound
  · rw [result]
    exact Role.Sound.quiet sound.close
  · rw [result]
    exact Role.Sound.quiet sound.close
  · rw [result]
    have admitted := (sound.opened passed).2 isOpen
    have reachable := (sound.close.opened passed).1
    refine ⟨sound.url,sound.justified.append ⟨admitted,trivial⟩,?_,fun still => absurd rfl still,fun _ => ?_,fun _ _ => passed,?_⟩
    · rw [List.count_append,List.count_eq_zero.mpr (sound.unclosed isOpen)]
      exact Nat.le_refl 1
    · exact ⟨⟨⟨reachable.identified.peer,reachable.identified.streamid⟩,reachable.fits⟩,fun still => absurd rfl still⟩
    · intro shut
      exact absurd (passed.symm.trans shut) (by decide)

theorem Role.Sound.markInvalid (sound : role.Sound log) (threw : Bool) :
    (role.markInvalid threw).1.Sound (log ++ (role.markInvalid threw).2) :=
  (sound.idle role.httpFuture (.inr rfl) role.deadline .invalid role.kickRequested).invalidSrt threw

theorem Role.Sound.uninit (sound : role.Sound log) (threw : Bool) :
    (role.uninit threw).1.Sound (log ++ (role.uninit threw).2) := by
  unfold Role.uninit
  dsimp only
  split
  · exact Role.Sound.quiet (sound.idle none (.inl rfl) 0 role.state role.kickRequested)
  · exact (sound.idle none (.inl rfl) 0 .uninit role.kickRequested).invalidSrt threw

theorem Role.getState_cases (role : Role) (threw idle broken : Bool) :
    role.getState threw idle broken = (role,[]) ∧
        (role.state = .invalid ∨ role.kickRequested ≠ true ∧ idle ≠ true ∧ broken ≠ true) ∨
      role.getState threw idle broken = role.markInvalid threw := by
  unfold Role.getState
  split
  · rename_i ended
    exact .inl ⟨rfl,.inl ended⟩
  · split
    · exact .inr rfl
    · split
      · exact .inr rfl
      · split
        · exact .inr rfl
        · rename_i noKick noIdle noBreak
          exact .inl ⟨rfl,.inr ⟨noKick,noIdle,noBreak⟩⟩

theorem Role.checkHttpPassed_cases (role : Role) (threw : Bool) (now : Nat) :
    role.checkHttpPassed threw now = (role,[]) ∨
      (∃ future deadline state, (future = none ∨ future = role.httpFuture) ∧ role.checkHttpPassed threw now =
        ({role with httpFuture := future,deadline := deadline,state := state} : Role).invalidSrt threw) ∨
      (role.httpPassed = false ∧ ∃ event response, role.httpFuture = some ⟨event,some response⟩ ∧
        role.checkHttpPassed threw now =
          ({role with httpFuture := none,deadline := 0,httpPassed := true},[.passed role.srt.isSome])) := by
  unfold Role.checkHttpPassed
  split
  · exact .inl rfl
  rename_i notPassed
  split
  · exact .inr (.inl ⟨none,0,.invalid,.inl rfl,rfl⟩)
  split
  · exact .inr (.inl ⟨role.httpFuture,0,.invalid,.inr rfl,rfl⟩)
  · exact .inl rfl
  · rename_i event response asked
    dsimp only
    split
    · exact .inr (.inl ⟨none,0,role.state,.inl rfl,rfl⟩)
    · exact .inr (.inr ⟨by simpa using notPassed,event,response,asked,rfl⟩)

theorem Role.Sound.getState (sound : role.Sound log) (threw idle broken : Bool) :
    (role.getState threw idle broken).1.Sound (log ++ (role.getState threw idle broken).2) := by
  obtain ⟨kept,_⟩ | marked := role.getState_cases threw idle broken
  · rw [kept]
    exact Role.Sound.quiet sound
  · rw [marked]
    exact sound.markInvalid threw

theorem Role.Sound.checkHttpPassed (sound : role.Sound log) (threw : Bool) (now : Nat) :
    (role.checkHttpPassed threw now).1.Sound (log ++ (role.checkHttpPassed threw now).2) := by
  obtain kept | ⟨future,deadline,state,known,given⟩ | ⟨shut,event,response,asked,passes⟩ := role.checkHttpPassed_cases threw now
  · rw [kept]
    exact Role.Sound.quiet sound
  · rw [given]
    exact (sound.idle future known deadline state role.kickRequested).invalidSrt threw
  · rw [passes]
    obtain ⟨_,reachable⟩ := sound.asked shut _ asked
    refine ⟨sound.url,sound.justified.append ⟨trivial,trivial⟩,?_,fun isOpen => ?_,fun _ => ?_,fun _ _ => rfl,fun passed => ?_⟩
    · rw [List.count_append]
      exact sound.once
    · simpa using sound.unclosed isOpen
    · refine ⟨⟨⟨reachable.identified.peer,reachable.identified.streamid⟩,reachable.fits⟩,fun isOpen => ?_⟩
      have isOpen : role.srt ≠ none := isOpen
      have recorded : role.srt.isSome = true := Option.isSome_iff_ne_none.mpr isOpen
      simp [recorded]
    · cases passed

theorem Role.Sound.complete (sound : role.Sound log) (response : AsyncHttpResponse) : (role.complete response).Sound log := by
  unfold Role.complete
  split
  · rename_i event asked
    refine ⟨sound.url,sound.justified,sound.once,sound.unclosed,fun passed => ?_,sound.recorded,fun shut future same => ?_⟩
    · obtain ⟨reachable,recorded⟩ := sound.opened passed
      exact ⟨⟨⟨reachable.identified.peer,reachable.identified.streamid⟩,reachable.fits⟩,recorded⟩
    · obtain ⟨connect,reachable⟩ := sound.asked shut _ asked
      cases same
      exact ⟨connect,⟨reachable.identified.peer,reachable.identified.streamid⟩,reachable.fits⟩
  · exact sound

theorem Role.Sound.step (sound : role.Sound log) (call : Call) :
    (role.step call).1.Sound (log ++ (role.step call).2) := by
  obtain ⟨op,threw⟩ := call
  cases op with
  | onConnect now => exact sound.onConnect threw now
  | complete response => exact Role.Sound.quiet (sound.complete response)
  | checkHttpPassed now => exact sound.checkHttpPassed threw now
  | markInvalid => exact sound.markInvalid threw
  | invalidSrt => exact sound.invalidSrt threw
  | requestKick =>
    exact Role.Sound.quiet (sound.idle role.httpFuture (.inr rfl) role.deadline role.state true)
  | getState idle broken => exact sound.getState threw idle broken
  | uninit => exact sound.uninit threw

theorem Role.invalidSrt_closes (role : Role) (threw : Bool) : (role.invalidSrt threw).1.srt = none := by
  unfold Role.invalidSrt
  split
  · assumption
  · unfold Role.onClose
    split
    · rfl
    · dsimp only
      split
      · rfl
      · rfl

theorem Role.uninit_closes (threw : Bool) (inited : role.srt ≠ none → role.state = .inited) : (role.uninit threw).1.srt = none := by
  unfold Role.uninit
  dsimp only
  split
  · rename_i ended
    by_contra isOpen
    rw [inited isOpen] at ended
    cases ended
  · exact Role.invalidSrt_closes _ threw

theorem Role.step_socket (inited : role.srt ≠ none → role.state = .inited) (call : Call) :
    ((role.step call).1.srt = role.srt ∧ (role.step call).1.state = role.state) ∨ (role.step call).1.srt = none := by
  obtain ⟨op,threw⟩ := call
  cases op with
  | onConnect now =>
    left
    show ((role.onConnect threw now).1.srt = role.srt ∧ (role.onConnect threw now).1.state = role.state)
    unfold Role.onConnect
    split
    · exact ⟨rfl,rfl⟩
    · dsimp only
      split
      · exact ⟨rfl,rfl⟩
      · exact ⟨rfl,rfl⟩
  | complete response =>
    left
    show ((role.complete response).srt = role.srt ∧ (role.complete response).state = role.state)
    unfold Role.complete
    split
    · exact ⟨rfl,rfl⟩
    · exact ⟨rfl,rfl⟩
  | checkHttpPassed now =>
    show ((role.checkHttpPassed threw now).1.srt = role.srt ∧ (role.checkHttpPassed threw now).1.state = role.state) ∨
      (role.checkHttpPassed threw now).1.srt = none
    obtain kept | ⟨_,_,_,_,given⟩ | ⟨_,_,_,_,passes⟩ := role.checkHttpPassed_cases threw now
    · rw [kept]
      exact .inl ⟨rfl,rfl⟩
    · rw [given]
      exact .inr (Role.invalidSrt_closes _ threw)
    · rw [passes]
      exact .inl ⟨rfl,rfl⟩
  | markInvalid => exact .inr (Role.invalidSrt_closes _ threw)
  | invalidSrt => exact .inr (Role.invalidSrt_closes _ threw)
  | requestKick => exact .inl ⟨rfl,rfl⟩
  | getState idle broken =>
    show ((role.getState threw idle broken).1.srt = role.srt ∧ (role.getState threw idle broken).1.state = role.state) ∨
      (role.getState threw idle broken).1.srt = none
    obtain ⟨kept,_⟩ | marked := role.getState_cases threw idle broken
    · rw [kept]
      exact .inl ⟨rfl,rfl⟩
    · rw [marked]
      exact .inr (Role.invalidSrt_closes _ threw)
  | uninit => exact .inr (role.uninit_closes threw inited)

theorem Role.step_inited (inited : role.srt ≠ none → role.state = .inited) (call : Call) :
    (role.step call).1.srt ≠ none → (role.step call).1.state = .inited := by
  intro isOpen
  obtain ⟨socket,state⟩ | closed := role.step_socket inited call
  · rw [socket] at isOpen
    rw [state]
    exact inited isOpen
  · exact absurd closed isOpen

theorem Op.TearsDown.closes {call : Call} (tears : call.op.TearsDown role) (inited : role.srt ≠ none → role.state = .inited) :
    (role.step call).1.srt = none := by
  obtain ⟨op,threw⟩ := call
  cases op with
  | onConnect now => cases tears
  | complete response => cases tears
  | checkHttpPassed now => cases tears
  | requestKick => cases tears
  | markInvalid => exact Role.invalidSrt_closes _ threw
  | invalidSrt => exact Role.invalidSrt_closes _ threw
  | uninit => exact role.uninit_closes threw inited
  | getState idle broken =>
    show (role.getState threw idle broken).1.srt = none
    obtain ⟨kept,ended | ⟨noKick,noIdle,noBreak⟩⟩ | marked := role.getState_cases threw idle broken
    · rw [kept]
      by_contra isOpen
      rw [inited isOpen] at ended
      cases ended
    · obtain kick | isIdle | isBroken := tears
      · exact absurd kick noKick
      · exact absurd isIdle noIdle
      · exact absurd isBroken noBreak
    · rw [marked]
      exact Role.invalidSrt_closes _ threw

/-- Of an admitted role whose socket is gone, the close has been reported. -/
def Role.Paired (role : Role) (log : List Event) : Prop :=
  .passed true ∈ log → role.srt = none → .dispatched .close ∈ log

theorem Role.Sound.invalidSrt_paired (sound : role.Sound log) (paired : role.Paired log) :
    (role.invalidSrt false).1.Paired (log ++ (role.invalidSrt false).2) := by
  obtain ⟨closed,result⟩ | ⟨_,shut,result⟩ | ⟨_,_,threw,_⟩ | ⟨_,_,_,result⟩ := sound.invalidSrt_cases false
  · rw [result]
    intro passed _
    exact List.mem_append_left _ (paired (by simpa using passed) closed)
  · rw [result]
    intro passed _
    have recorded := sound.recorded true (by simpa using passed)
    exact absurd (shut.symm.trans recorded) (by decide)
  · cases threw
  · rw [result]
    exact fun _ _ => List.mem_append_right _ (List.mem_singleton_self _)

theorem Role.Paired.quiet (paired : role.Paired log) {next : Role} (socket : next.srt = role.srt) {added : List Event}
    (nothing : .passed true ∉ added) : next.Paired (log ++ added) := by
  intro passed closed
  rw [socket] at closed
  obtain earlier | now := List.mem_append.mp passed
  · exact List.mem_append_left _ (paired earlier closed)
  · exact absurd now nothing

theorem Role.Paired.step (sound : role.Sound log) (paired : role.Paired log) (call : Call)
    (calm : call.threw = true → call.op.asks = true) : (role.step call).1.Paired (log ++ (role.step call).2) := by
  obtain ⟨op,threw⟩ := call
  have none : ∀ {kind : OnEvent}, Event.passed true ∉ [Event.dispatched kind] := by simp
  have quietThrow : op.asks = false → threw = false := by
    intro other
    cases threw with
    | false => rfl
    | true => exact absurd (other.symm.trans (calm rfl)) (by decide)
  cases op with
  | onConnect now =>
    show (role.onConnect threw now).1.Paired (log ++ (role.onConnect threw now).2)
    unfold Role.onConnect
    split
    · exact paired.quiet rfl List.not_mem_nil
    · dsimp only
      split
      · exact paired.quiet rfl List.not_mem_nil
      · exact paired.quiet rfl none
  | complete response =>
    have same : (role.complete response).srt = role.srt := by
      unfold Role.complete
      split
      · rfl
      · rfl
    exact paired.quiet same List.not_mem_nil
  | checkHttpPassed now =>
    cases quietThrow rfl
    show (role.checkHttpPassed false now).1.Paired (log ++ (role.checkHttpPassed false now).2)
    obtain kept | ⟨future,deadline,state,known,given⟩ | ⟨_,_,_,_,passes⟩ := role.checkHttpPassed_cases false now
    · rw [kept]
      exact paired.quiet rfl List.not_mem_nil
    · rw [given]
      exact (sound.idle future known deadline state role.kickRequested).invalidSrt_paired paired
    · rw [passes]
      intro passed closed
      have closed : role.srt = Option.none := closed
      refine List.mem_append_left _ (paired ?_ closed)
      simpa [closed] using passed
  | markInvalid =>
    cases quietThrow rfl
    exact (sound.idle role.httpFuture (.inr rfl) role.deadline .invalid role.kickRequested).invalidSrt_paired paired
  | invalidSrt =>
    cases quietThrow rfl
    exact sound.invalidSrt_paired paired
  | requestKick =>
    have same : ({role with kickRequested := true} : Role).srt = role.srt := rfl
    exact paired.quiet same List.not_mem_nil
  | getState idle broken =>
    cases quietThrow rfl
    show (role.getState false idle broken).1.Paired (log ++ (role.getState false idle broken).2)
    obtain ⟨kept,_⟩ | marked := role.getState_cases false idle broken
    · rw [kept]
      exact paired.quiet rfl List.not_mem_nil
    · rw [marked]
      exact (sound.idle role.httpFuture (.inr rfl) role.deadline .invalid role.kickRequested).invalidSrt_paired paired
  | uninit =>
    cases quietThrow rfl
    show (role.uninit false).1.Paired (log ++ (role.uninit false).2)
    unfold Role.uninit
    dsimp only
    split
    · exact paired.quiet rfl List.not_mem_nil
    · exact (sound.idle Option.none (.inl rfl) 0 .uninit role.kickRequested).invalidSrt_paired paired

theorem run_append (start : Role) (past later : List Call) : run start (past ++ later) = later.foldl advance (run start past) :=
  List.foldl_append

theorem run_sound {start : Role} (fresh : start.Fresh) (calls : List Call) : (run start calls).1.Sound (run start calls).2 :=
  List.foldlRecOn (motive := fun result : Role × List Event => result.1.Sound result.2) calls advance fresh.sound
    fun _ sound call _ => sound.step call

theorem run_inited {start : Role} (fresh : start.Fresh) (calls : List Call) :
    (run start calls).1.srt ≠ none → (run start calls).1.state = .inited :=
  List.foldlRecOn (motive := fun result : Role × List Event => result.1.srt ≠ none → result.1.state = .inited) calls advance
    (fun _ => fresh.inited) fun _ inited call _ => Role.step_inited inited call

/-- `post_async` throws in `on_connect` only. -/
def Calm (calls : List Call) : Prop := ∀ call ∈ calls, call.threw = true → call.op.asks = true

theorem run_paired {start : Role} (fresh : start.Fresh) {calls : List Call} (calm : Calm calls) :
    (run start calls).1.Paired (run start calls).2 := by
  have both : (run start calls).1.Sound (run start calls).2 ∧ (run start calls).1.Paired (run start calls).2 := by
    refine List.foldlRecOn (motive := fun result : Role × List Event => result.1.Sound result.2 ∧ result.1.Paired result.2)
      calls advance ⟨fresh.sound,fun passed => by cases passed⟩ ?_
    intro _ ⟨sound,paired⟩ call among
    exact ⟨sound.step call,Role.Paired.step sound paired call (calm call among)⟩
  exact both.2

theorem advance_keeps (before : Role × List Event) (calls : List Call) {event : Event} (among : event ∈ before.2) :
    event ∈ (calls.foldl advance before).2 :=
  List.foldlRecOn (motive := fun result : Role × List Event => event ∈ result.2) calls advance among
    fun _ among _ _ => List.mem_append_left _ among

theorem advance_closed {before : Role × List Event} (calls : List Call) (closed : before.1.srt = none) :
    (calls.foldl advance before).1.srt = none := by
  refine List.foldlRecOn (motive := fun result : Role × List Event => result.1.srt = none) calls advance closed ?_
  intro _ closed call _
  obtain ⟨socket,_⟩ | closed' := Role.step_socket (fun isOpen => absurd closed isOpen) call
  · exact socket.trans closed
  · exact closed'

/-- At most one close is reported, only after a success recorded with the socket open, and
exactly one if the role is then torn down. -/
theorem on_close_pairs_with_admission {start : Role} (fresh : start.Fresh) (calls : List Call) :
    (run start calls).2.count (.dispatched .close) ≤ 1 ∧
      (∀ before after, (run start calls).2 = before ++ .dispatched .close::after → .passed true ∈ before) ∧
      (Calm calls → ∀ past call later, calls = past ++ call::later → .passed true ∈ (run start past).2 →
        call.op.TearsDown (run start past).1 → (run start calls).2.count (.dispatched .close) = 1) := by
  have sound := run_sound fresh calls
  refine ⟨sound.once,fun before after split => ?_,?_⟩
  · have justified := sound.justified
    rw [split] at justified
    exact justified.at
  · intro calm past call later shape admitted tears
    have paired := run_paired fresh calm
    have whole : run start calls = later.foldl advance (advance (run start past) call) := by rw [shape,run_append]; rfl
    have kept : .passed true ∈ (run start calls).2 := by
      rw [whole]
      exact advance_keeps _ later (List.mem_append_left _ admitted)
    have closed : (run start calls).1.srt = none := by
      rw [whole]
      exact advance_closed later (tears.closes (run_inited fresh past))
    have reported := List.count_pos_iff.mpr (paired kept closed)
    have once := sound.once
    omega

def sampleRole : Role where
  roleName := ascii "player"
  httpUrl := ascii "http://h/e"
  streamid := []
  peerIp := []
  peerPort := 0
  server := none
  httpPassed := false
  httpFuture := none
  deadline := 0
  state := .inited
  srt := some ⟨some (ascii "::1",9000),ascii "play/live/a"⟩
  kickRequested := false

def sampleCalls : List Call :=
  [⟨.onConnect 100,false⟩,⟨.complete ⟨true,200⟩,false⟩,⟨.checkHttpPassed 200,false⟩,⟨.requestKick,false⟩,
    ⟨.getState false false,false⟩,⟨.uninit,false⟩]

theorem on_close_pairs_with_admission_kicked :
    (run sampleRole sampleCalls).2.count (.dispatched .close) = 1 := by
  have fresh : sampleRole.Fresh := ⟨by decide,rfl,rfl,rfl⟩
  refine (on_close_pairs_with_admission fresh sampleCalls).2.2 ?_ (sampleCalls.take 4) ⟨.getState false false,false⟩
    [⟨.uninit,false⟩] rfl ?_ (.inl rfl)
  · simp [Calm,sampleCalls]
  · decide +kernel

end Runs

section Publisher

/-- The gate of a publisher as a role of its kind, its peer and stream id known. -/
def ofPublisher (role : PublisherAuth.Role) : Role where
  roleName := ascii "publisher"
  httpUrl := role.httpUrl
  streamid := role.streamid
  peerIp := role.peerIp
  peerPort := role.peerPort
  server := none
  httpPassed := role.httpPassed
  httpFuture := role.httpFuture
  deadline := role.deadline
  state := role.state
  srt := if role.srt then some ⟨some (role.peerIp,role.peerPort),role.streamid⟩ else none
  kickRequested := role.kickRequested

@[simp] theorem ofPublisher_httpUrl (role : PublisherAuth.Role) : (ofPublisher role).httpUrl = role.httpUrl := rfl

@[simp] theorem ofPublisher_httpPassed (role : PublisherAuth.Role) : (ofPublisher role).httpPassed = role.httpPassed := rfl

@[simp] theorem ofPublisher_httpFuture (role : PublisherAuth.Role) : (ofPublisher role).httpFuture = role.httpFuture := rfl

@[simp] theorem ofPublisher_deadline (role : PublisherAuth.Role) : (ofPublisher role).deadline = role.deadline := rfl

theorem ofPublisher_identified (role : PublisherAuth.Role) : (ofPublisher role).Identified := by
  constructor
  · intro _
    show (Option.bind (if role.srt then _ else _) Socket.peer).getD (role.peerIp,role.peerPort) = _
    cases role.srt <;> rfl
  · intro unknown
    have unknown : role.streamid = [] := unknown
    show (Option.map Socket.streamid (if role.srt then _ else _)).getD [] = []
    rw [unknown]
    cases role.srt <;> rfl

theorem ofPublisher_onClose (role : PublisherAuth.Role) : ((ofPublisher role).onClose false).1 = ofPublisher role.onClose := by
  unfold Role.onClose PublisherAuth.Role.onClose
  rw [(ofPublisher_identified role).identify,ofPublisher_httpPassed,ofPublisher_httpUrl]
  have url : (ofPublisher role).onEventUrl .close = role.onEventUrl .close := rfl
  by_cases refused : role.httpPassed = false ∨ role.httpUrl = []
  · have gone : (!role.httpPassed || role.httpUrl = [] || urlMaxLen ≤ (role.onEventUrl .close).length) = true := by
      obtain shut | none := refused
      · simp [shut]
      · simp [none]
    rw [if_pos refused,if_pos gone]
  · rw [if_neg refused]
    dsimp only
    rw [url]
    obtain ⟨passed,some⟩ := not_or.mp refused
    by_cases long : urlMaxLen ≤ (role.onEventUrl .close).length
    · rw [if_pos (.inl long),if_pos (by simp [long])]
    · have fits : (role.onEventUrl .close).length < urlMaxLen := Nat.lt_of_not_le long
      have sent : ¬ (!role.httpPassed || role.httpUrl = [] || urlMaxLen ≤ (role.onEventUrl .close).length) = true := by
        simp [passed,some,fits]
      rw [if_neg (by simp [fits]),if_neg sent]
      rfl

theorem ofPublisher_invalidSrt (role : PublisherAuth.Role) :
    ((ofPublisher role).invalidSrt false).1 = ofPublisher role.invalidSrt := by
  unfold Role.invalidSrt PublisherAuth.Role.invalidSrt
  cases isOpen : role.srt with
  | false =>
    have none : (ofPublisher role).srt = none := by rw [ofPublisher,isOpen]; rfl
    rw [none]
    rfl
  | true =>
    have some : (ofPublisher role).srt = some ⟨some (role.peerIp,role.peerPort),role.streamid⟩ := by rw [ofPublisher,isOpen]; rfl
    rw [some]
    exact ofPublisher_onClose {role with srt := false}

/-- The publisher's own model of the gate answers and tears down as this one does. -/
theorem ofPublisher_checkHttpPassed (role : PublisherAuth.Role) (now : Nat) :
    ((ofPublisher role).checkHttpPassed false now).1 = ofPublisher (role.checkHttpPassed now).2 := by
  unfold Role.checkHttpPassed PublisherAuth.Role.checkHttpPassed
  rw [ofPublisher_httpPassed,ofPublisher_deadline]
  by_cases passed : role.httpPassed = true
  · rw [if_pos passed,if_pos passed]
  rw [if_neg passed,if_neg passed]
  by_cases expired : 0 < role.deadline ∧ role.deadline ≤ now
  · rw [if_pos expired,if_pos expired]
    exact ofPublisher_invalidSrt {role with httpFuture := none,deadline := 0,state := .invalid}
  rw [if_neg expired,if_neg expired]
  rw [ofPublisher_httpFuture]
  cases role.httpFuture with
  | none => exact ofPublisher_invalidSrt {role with httpFuture := none,deadline := 0,state := .invalid}
  | some future =>
    obtain ⟨event,response⟩ := future
    cases response with
    | none => rfl
    | some response =>
      dsimp only
      by_cases refused : response.success = false ∨ response.statusCode ≠ 200
      · rw [if_pos refused,if_pos (by simpa using refused)]
        exact ofPublisher_invalidSrt {role with httpFuture := none,deadline := 0}
      · rw [if_neg refused,if_neg (by simpa using refused)]
        rfl

end Publisher

end SrtLiveServer.CloseNotification
