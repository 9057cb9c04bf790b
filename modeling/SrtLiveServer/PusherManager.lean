import SrtLiveServer.RelayUrl

/-! `CSLSPusherManager` in mode `SLS_PM_ALL`: connecting every upstream, the map
of legs waiting for a reconnect, and one reconnect round over it. The outcome of
a connect is a parameter; `CSLSRelay::open` gives one below. -/
namespace SrtLiveServer.PusherManager
open Bytes PushUrl RelayUrl

structure RelayInfo where
  upstreams : List Text
  vettedAddrs : List SockAddr
  reconnectInterval : Int

/-- `m_map_reconnect_relay`: URL and begin time, in key order. -/
abbrev ReconnectMap : Type := List (Text × Int)

def ReconnectMap.set (url : Text) (tm : Int) : ReconnectMap → ReconnectMap
  | [] => [(url,tm)]
  | entry::rest =>
    if url = entry.1 then (url,tm)::rest
    else if url < entry.1 then (url,tm)::entry::rest
    else entry::ReconnectMap.set url tm rest

/-- The `connect` calls of `connect_all`, each with its index and vetted address;
an entry whose URL does not fit the buffer is dropped. -/
def connectCalls (streamName : Text) : Nat → List Text → List SockAddr → List (Nat × Text × Option SockAddr)
  | _,[],_ => []
  | i,template::rest,vetted =>
    match connectUrl template streamName with
    | none => connectCalls streamName (i + 1) rest vetted.tail
    | some url => (i,url,vetted.head?)::connectCalls streamName (i + 1) rest vetted.tail

def recordFailure (connect : Nat × Text × Option SockAddr → Bool) (now : Int) (map : ReconnectMap)
    (call : Nat × Text × Option SockAddr) : ReconnectMap :=
  if connect call then map else map.set call.2.1 now

/-- The map after `connect_all`; its return code only reaches a log line. -/
def connectAll (info : RelayInfo) (streamName : Text) (connect : Nat × Text × Option SockAddr → Bool) (now : Int)
    (map : ReconnectMap) : ReconnectMap :=
  (connectCalls streamName 0 info.upstreams info.vettedAddrs).foldl (recordFailure connect now) map

def addReconnectStream (url : Text) (now : Int) (map : ReconnectMap) : ReconnectMap := map.set url now

def isDue (cur interval : Int) (entry : Text × Int) : Bool := !decide (cur - entry.2 < interval * 1000)

/-- One pass of `reconnect_all`. `ret` is the variable the loop carries from leg
to leg: a leg that is not tried adds the result of the last one that was. -/
def reconnectFrom (connect : Text → Bool) (cur interval : Int) (noPublisher : Bool) :
    Bool → ReconnectMap → ReconnectMap × Bool
  | _,[] => ([],true)
  | ret,entry::rest =>
    if isDue cur interval entry then
      if noPublisher then
        let next := reconnectFrom connect cur interval noPublisher ret rest
        ((entry.1,cur)::next.1,ret && next.2)
      else
        let next := reconnectFrom connect cur interval noPublisher (connect entry.1) rest
        if connect entry.1 then next else ((entry.1,cur)::next.1,false)
    else
      let next := reconnectFrom connect cur interval noPublisher ret rest
      (entry::next.1,ret && next.2)

def reconnectAll (connect : Text → Bool) (cur interval : Int) (noPublisher : Bool) (map : ReconnectMap) :
    ReconnectMap × Bool :=
  reconnectFrom connect cur interval noPublisher false map

def reconnectCalls (cur interval : Int) (noPublisher : Bool) (map : ReconnectMap) : List Text :=
  if noPublisher then [] else (map.filter (isDue cur interval)).map Prod.fst

structure OpenEnv where
  socket : Bool
  hostAddr : Option (BitVec 32)
  connected : Bool

inductive Event where
  | resolve (host : Text)
  | dial (url : Text) (addr : SockAddr)
deriving DecidableEq

/-- `CSLSRelay::open`. An exception of `parse_url` ends the process before any
dial, so it counts here as an open that dials nothing. -/
def openRelay (lib : CxxUrl) (vetted : Option SockAddr) (url : Text) (env : OpenEnv) : Bool × List Event :=
  if 2048 ≤ url.length then (false,[])
  else
    match parseUrl lib url with
    | .ok (some endpoint) =>
      if endpoint.options.streamid.isEmpty || !env.socket then (false,[])
      else
        -- `set_vetted_addr` ignores every other family
        match vetted.filter SockAddr.isInternet with
        | some addr => (env.connected,[.dial url (addr.withPort endpoint.port)])
        | none =>
          match env.hostAddr with
          | some addr =>
            (env.connected,[.resolve endpoint.hostName,.dial url ((SockAddr.inet addr 0).withPort endpoint.port)])
          | none => (false,[.resolve endpoint.hostName])
    | _ => (false,[])

/-- The URL gets as far as a dial: it parses and names a stream. -/
def Dialable (lib : CxxUrl) (url : Text) : Prop :=
  ∃ endpoint, parseUrl lib url = .ok (some endpoint) ∧ endpoint.options.streamid ≠ []

theorem openRelay_silent (lib : CxxUrl) (vetted : Option SockAddr) (url : Text) (env : OpenEnv)
    (closed : ¬ Dialable lib url) : (openRelay lib vetted url env).2 = [] := by
  unfold openRelay
  split
  · rfl
  · split
    · rename_i endpoint parsed
      split
      · rfl
      · rename_i passes
        refine absurd ⟨endpoint,parsed,?_⟩ closed
        intro unnamed
        simp [unnamed] at passes
    · rfl

theorem openRelay_vetted (lib : CxxUrl) (addr : SockAddr) (url : Text) (env : OpenEnv)
    (internet : addr.isInternet = true) (event : Event) (member : event ∈ (openRelay lib (some addr) url env).2) :
    ∃ endpoint, parseUrl lib url = .ok (some endpoint) ∧ event = .dial url (addr.withPort endpoint.port) := by
  unfold openRelay at member
  split at member
  · simp at member
  · split at member
    · rename_i endpoint parsed
      split at member
      · simp at member
      · simp only [Option.filter_some,internet,if_true,List.mem_singleton] at member
        exact ⟨endpoint,parsed,member⟩
    · simp at member

theorem connectCalls_target (streamName : Text) (targets : List (Text × SockAddr)) (i : Nat)
    (call : Nat × Text × Option SockAddr)
    (member : call ∈ connectCalls streamName i (targets.map Prod.fst) (targets.map Prod.snd)) :
    ∃ target ∈ targets, connectUrl target.1 streamName = some call.2.1 ∧ call.2.2 = some target.2 := by
  induction targets generalizing i with
  | nil => simp [connectCalls] at member
  | cons target targets ih =>
    have later : call ∈ connectCalls streamName (i + 1) (targets.map Prod.fst) (targets.map Prod.snd) →
        ∃ other ∈ target::targets, connectUrl other.1 streamName = some call.2.1 ∧ call.2.2 = some other.2 := by
      intro inside
      obtain ⟨other,listed,found⟩ := ih (i + 1) inside
      exact ⟨other,List.mem_cons_of_mem target listed,found⟩
    simp only [List.map_cons,connectCalls] at member
    split at member
    · exact later member
    · rename_i url built
      rcases List.mem_cons.mp member with rfl | inside
      · exact ⟨target,List.mem_cons_self,built,rfl⟩
      · exact later inside

theorem reconnectFrom_connects (connect : Text → Bool) (cur interval : Int) (ret : Bool) (map : ReconnectMap)
    (ok : (reconnectFrom connect cur interval false ret map).2 = true) :
    ∀ entry ∈ map, isDue cur interval entry = true → connect entry.1 = true := by
  induction map generalizing ret with
  | nil => simp
  | cons first rest ih =>
    intro entry member due
    unfold reconnectFrom at ok
    by_cases firstDue : isDue cur interval first = true
    · simp only [firstDue,if_true,Bool.false_eq_true,if_false] at ok
      by_cases connected : connect first.1 = true
      · rw [if_pos connected] at ok
        rcases List.mem_cons.mp member with rfl | later
        · exact connected
        · exact ih _ ok entry later due
      · simp [connected] at ok
    · rw [if_neg firstDue] at ok
      simp only [Bool.and_eq_true] at ok
      rcases List.mem_cons.mp member with rfl | later
      · exact absurd due firstDue
      · exact ih ret ok.2 entry later due

theorem reconnectFrom_rest (connect : Text → Bool) (cur interval : Int) (ret : Bool) (map : ReconnectMap)
    (connects : ∀ entry ∈ map, isDue cur interval entry = true → connect entry.1 = true) :
    (reconnectFrom connect cur interval false ret map).1 = map.filter fun entry => !isDue cur interval entry := by
  induction map generalizing ret with
  | nil => rfl
  | cons first rest ih =>
    have later := fun ret => ih ret fun entry member => connects entry (List.mem_cons_of_mem first member)
    unfold reconnectFrom
    by_cases due : isDue cur interval first = true
    · have connected := connects first List.mem_cons_self due
      simp [due,connected,later]
    · simp [due,later]

theorem reconnectAll_ok (connect : Text → Bool) (cur interval : Int) (noPublisher : Bool) (map : ReconnectMap)
    (ok : (reconnectAll connect cur interval noPublisher map).2 = true) :
    map = [] ∨ noPublisher = false ∧ (∃ first rest, map = first::rest ∧ isDue cur interval first = true) ∧
      ∀ entry ∈ map, isDue cur interval entry = true → connect entry.1 = true := by
  cases map with
  | nil => exact Or.inl rfl
  | cons first rest =>
    right
    cases noPublisher with
    | true =>
      unfold reconnectAll reconnectFrom at ok
      split at ok <;> simp at ok
    | false =>
      refine ⟨rfl,⟨first,rest,rfl,?_⟩,reconnectFrom_connects connect cur interval false (first::rest) ok⟩
      by_contra waiting
      unfold reconnectAll reconnectFrom at ok
      simp [waiting] at ok

end SrtLiveServer.PusherManager
