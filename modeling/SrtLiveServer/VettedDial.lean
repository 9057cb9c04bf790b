import SrtLiveServer.PusherManager
import SrtLiveServer.Transition

/-! The dynamic pusher of a publisher: the push targets its webhook answer
carries, and every address dialed for them over the life of the manager. The
resolver's later answers are the environment's. -/
namespace SrtLiveServer.VettedDial
open Bytes PushUrl RelayUrl PusherManager Transition

/-- The resolver answers with internet addresses, as `getaddrinfo` does for the
unspecified family. -/
structure Platform.Internet (net : Platform) : Prop where
  numeric : ∀ host port, ∀ addr ∈ net.resolveNumeric host port, addr.isInternet = true
  named : ∀ host port, ∀ addr ∈ (net.resolveWithTimeout host port).getD [], addr.isInternet = true

structure Validator where
  lib : CxxUrl
  conf : AppConf
  bindAddresses : List Text
  pushDestinationMax : Int

def Validator.check (v : Validator) (url : Text) (net : Platform) : PushUrlReject × Option SockAddr :=
  validatePushUrl v.lib net url v.conf v.bindAddresses

def Validator.keepTarget (v : Validator) (kept : List (Text × SockAddr)) (entry : Text × Platform) :
    List (Text × SockAddr) :=
  if v.pushDestinationMax ≤ kept.length then kept
  else
    match v.check entry.1 entry.2 with
    | (.ok,some addr) => kept ++ [(entry.1,addr)]
    | _ => kept

/-- `m_push_urls` and `m_push_vetted_addrs`, pushed together. Each URL is checked
against the resolver of its moment. -/
def Validator.pushTargets (v : Validator) (entries : List (Text × Platform)) : List (Text × SockAddr) :=
  entries.foldl v.keepTarget []

/-- The relay info `try_spawn_dynamic_pusher` builds. -/
def dynamicInfo (targets : List (Text × SockAddr)) : RelayInfo where
  upstreams := targets.map Prod.fst
  vettedAddrs := targets.map Prod.snd
  reconnectInterval := 10

structure Pusher where
  lib : CxxUrl
  targets : List (Text × SockAddr)
  streamName : Text

structure Legs where
  reconnect : ReconnectMap
  children : List Text
  log : List Event

def Legs.start : Legs := ⟨[],[],[]⟩

inductive Label where
  | start (published : Bool) (now : Int) (env : Nat → OpenEnv)
  | childEnds (url : Text) (now : Int)
  | reconnect (cur : Int) (noPublisher : Bool) (env : Text → OpenEnv)

def Pusher.step (p : Pusher) (s : Legs) : Label → Option Legs
  | .start published now env =>
    if published then
      let info := dynamicInfo p.targets
      let calls := connectCalls p.streamName 0 info.upstreams info.vettedAddrs
      let connect := fun (call : Nat × Text × Option SockAddr) => openRelay p.lib call.2.2 call.2.1 (env call.1)
      some {
        reconnect := connectAll info p.streamName (fun call => (connect call).1) now s.reconnect
        children := s.children ++ (calls.filter fun call => (connect call).1).map fun call => call.2.1
        log := s.log ++ calls.flatMap fun call => (connect call).2}
    else some s
  | .childEnds url now =>
    if url ∈ s.children then
      some {s with reconnect := addReconnectStream url now s.reconnect,children := s.children.erase url}
    else none
  | .reconnect cur noPublisher env =>
    let interval := (dynamicInfo p.targets).reconnectInterval
    let calls := reconnectCalls cur interval noPublisher s.reconnect
    -- the vetted address is not kept beside the URL: `connect` is called without it
    let connect := fun (url : Text) => openRelay p.lib none url (env url)
    some {
      reconnect := (reconnectAll (fun url => (connect url).1) cur interval noPublisher s.reconnect).1
      children := s.children ++ calls.filter fun url => (connect url).1
      log := s.log ++ calls.flatMap fun url => (connect url).2}

def Pusher.machine (p : Pusher) : Machine Legs Label := ⟨p.step⟩

/-- The event is a dial, to the address the validator returned for a push target
that builds this URL. -/
def Validator.Vetted (v : Validator) (entries : List (Text × Platform)) (streamName : Text) (event : Event) : Prop :=
  ∃ entry ∈ entries, ∃ addr url endpoint, v.check entry.1 entry.2 = (.ok,some addr) ∧
    connectUrl entry.1 streamName = some url ∧ parseUrl v.lib url = .ok (some endpoint) ∧
    event = .dial url (addr.withPort endpoint.port)

/-- No reconnect round dials: none is due with the publisher present, or what is
due does not parse. -/
def Pusher.NoRedial (p : Pusher) (s : Legs) : Label → Prop
  | .reconnect cur noPublisher _ =>
    ∀ url ∈ reconnectCalls cur (dynamicInfo p.targets).reconnectInterval noPublisher s.reconnect, ¬ Dialable p.lib url
  | _ => True

theorem Validator.pushTargets_checked (v : Validator) (entries : List (Text × Platform)) :
    ∀ target ∈ v.pushTargets entries, ∃ entry ∈ entries,
      entry.1 = target.1 ∧ v.check entry.1 entry.2 = (.ok,some target.2) := by
  -- the accumulator holds checked entries of the list already passed
  have general : ∀ (rest : List (Text × Platform)) (kept : List (Text × SockAddr)),
      (∀ target ∈ kept, ∃ entry ∈ entries, entry.1 = target.1 ∧ v.check entry.1 entry.2 = (.ok,some target.2)) →
      (∀ entry ∈ rest, entry ∈ entries) →
      ∀ target ∈ rest.foldl v.keepTarget kept, ∃ entry ∈ entries,
        entry.1 = target.1 ∧ v.check entry.1 entry.2 = (.ok,some target.2) := by
    intro rest
    induction rest with
    | nil =>
      intro kept checked _
      exact checked
    | cons entry rest ih =>
      intro kept checked listed
      apply ih
      · intro target member
        unfold Validator.keepTarget at member
        split at member
        · exact checked target member
        · split at member
          · rename_i addr verdict
            rcases List.mem_append.mp member with earlier | new
            · exact checked target earlier
            · rw [List.mem_singleton] at new
              subst target
              exact ⟨entry,listed entry List.mem_cons_self,rfl,verdict⟩
          · exact checked target member
      · intro other member
        exact listed other (List.mem_cons_of_mem entry member)
  exact general entries [] (by simp) fun _ member => member

theorem Platform.Internet.resolve {net : Platform} (internet : Platform.Internet net) (host port : Text)
    (addr : SockAddr) (answered : addr ∈ net.resolve host port) : addr.isInternet = true := by
  unfold Platform.resolve at answered
  dsimp only at answered
  split at answered
  · exact internet.named host port addr answered
  · exact internet.numeric host port addr answered

theorem Validator.check_internet (v : Validator) (url : Text) (net : Platform) (addr : SockAddr)
    (internet : Platform.Internet net) (accepted : v.check url net = (.ok,some addr)) : addr.isInternet = true := by
  unfold Validator.check at accepted
  obtain ⟨_,host,port,_,first,rest,_,_,_,_,answered,chosen⟩ :=
    validatePushUrl_ok v.lib net url v.conf v.bindAddresses (by rw [accepted])
  rw [accepted] at chosen
  cases chosen
  exact internet.resolve host port addr (by rw [answered]; exact List.mem_cons_self)

section Runs
variable (v : Validator) (entries : List (Text × Platform)) (streamName : Text)

def Validator.pusher : Pusher := ⟨v.lib,v.pushTargets entries,streamName⟩

theorem Validator.start_vetted (internet : ∀ entry ∈ entries, Platform.Internet entry.2)
    (call : Nat × Text × Option SockAddr) (env : OpenEnv)
    (member : call ∈ connectCalls streamName 0 (dynamicInfo (v.pushTargets entries)).upstreams
      (dynamicInfo (v.pushTargets entries)).vettedAddrs)
    (event : Event) (emitted : event ∈ (openRelay v.lib call.2.2 call.2.1 env).2) :
    v.Vetted entries streamName event := by
  obtain ⟨target,listed,built,vetted⟩ := connectCalls_target streamName (v.pushTargets entries) 0 call member
  obtain ⟨entry,offered,same,verdict⟩ := v.pushTargets_checked entries target listed
  rw [vetted] at emitted
  have family := v.check_internet entry.1 entry.2 target.2 (internet entry offered) verdict
  obtain ⟨endpoint,parsed,dialed⟩ := openRelay_vetted v.lib target.2 call.2.1 env family event emitted
  exact ⟨entry,offered,target.2,call.2.1,endpoint,verdict,same ▸ built,parsed,dialed⟩

theorem Validator.keeps_vetted (internet : ∀ entry ∈ entries, Platform.Internet entry.2) :
    (v.pusher entries streamName).machine.Keeps (v.pusher entries streamName).NoRedial
      fun s => ∀ event ∈ s.log, v.Vetted entries streamName event := by
  intro s label next vetted silent stepped
  cases label with
  | start published now env =>
    simp only [Pusher.machine,Pusher.step] at stepped
    split at stepped <;> cases stepped
    · intro event member
      rcases List.mem_append.mp member with earlier | new
      · exact vetted event earlier
      · obtain ⟨call,called,emitted⟩ := List.mem_flatMap.mp new
        exact v.start_vetted entries streamName internet call (env call.1) called event emitted
    · exact vetted
  | childEnds url now =>
    simp only [Pusher.machine,Pusher.step] at stepped
    split at stepped <;> cases stepped
    exact vetted
  | reconnect cur noPublisher env =>
    cases Option.some.inj stepped
    intro event member
    rcases List.mem_append.mp member with earlier | new
    · exact vetted event earlier
    · obtain ⟨url,called,emitted⟩ := List.mem_flatMap.mp new
      have none := openRelay_silent v.lib none url (env url) (silent url called)
      change event ∈ (openRelay v.lib Option.none url (env url)).2 at emitted
      rw [none] at emitted
      simp at emitted

/-- As long as no reconnect round redials a leg, every dial of the dynamic pusher
goes to the vetted address and no host is resolved again. -/
theorem dialed_address_vetted (internet : ∀ entry ∈ entries, Platform.Internet entry.2) (labels : List Label)
    (s : Legs) (admitted : (v.pusher entries streamName).machine.Admits (v.pusher entries streamName).NoRedial
      Legs.start labels)
    (ran : (v.pusher entries streamName).machine.run Legs.start labels = some s) :
    ∀ event ∈ s.log, v.Vetted entries streamName event := by
  have initial : ∀ event ∈ Legs.start.log, v.Vetted entries streamName event := by simp [Legs.start]
  exact (v.keeps_vetted entries streamName internet).run initial admitted ran

end Runs

def oneTarget : Validator := ⟨plainUrl,openConf,[],1⟩

def oneEntry : List (Text × Platform) := [(ascii "srt://example.com:9000?streamid=abc",oneHost)]

theorem oneHost_internet : Platform.Internet oneHost :=
  ⟨fun _ _ _ member => by simp [oneHost] at member,fun _ _ addr member => by
    simp only [oneHost,Option.getD_some,List.mem_singleton] at member
    subst addr
    rfl⟩

theorem dialed_address_vetted_first_dial :
    ∃ s, (oneTarget.pusher oneEntry (ascii "s")).machine.run Legs.start
      [.start true 0 fun _ => ⟨true,none,false⟩,.reconnect 5000 false fun _ => ⟨true,some 0x7f000001,true⟩] = some s ∧
      s.log = [.dial (ascii "srt://example.com:9000?streamid=abc") (.inet 0x5db8d822 9000)] ∧
      ∀ event ∈ s.log, oneTarget.Vetted oneEntry (ascii "s") event := by
  refine ⟨_,rfl,by decide,dialed_address_vetted oneTarget oneEntry (ascii "s") ?_
    [.start true 0 fun _ => ⟨true,none,false⟩,.reconnect 5000 false fun _ => ⟨true,some 0x7f000001,true⟩] _ ?_ rfl⟩
  · intro entry member
    rw [oneEntry,List.mem_singleton] at member
    subst entry
    exact oneHost_internet
  · refine ⟨trivial,?_⟩
    rintro _ ⟨⟩
    refine ⟨?_,fun _ _ => trivial⟩
    intro url called
    have none : reconnectCalls 5000 10 false
        (connectAll (dynamicInfo (oneTarget.pushTargets oneEntry)) (ascii "s")
          (fun call => (openRelay plainUrl call.2.2 call.2.1 ⟨true,Option.none,false⟩).1) 0 []) = [] := by decide
    change url ∈ reconnectCalls 5000 10 false _ at called
    erw [none] at called
    simp at called

/-- The redial of a failed leg asks the resolver again and follows its answer,
here to a loopback address. -/
theorem reconnect_redials_unvetted :
    ¬ ∀ (v : Validator) (entries : List (Text × Platform)) (streamName : Text) (labels : List Label) (s : Legs),
      (∀ entry ∈ entries, Platform.Internet entry.2) →
      (v.pusher entries streamName).machine.run Legs.start labels = some s →
      ∀ event ∈ s.log, v.Vetted entries streamName event := by
  intro claim
  have vetted := claim oneTarget oneEntry (ascii "s")
    [.start true 0 fun _ => ⟨true,none,false⟩,.reconnect 10000 false fun _ => ⟨true,some 0x7f000001,true⟩] _
    (by
      intro entry member
      rw [oneEntry,List.mem_singleton] at member
      subst entry
      exact oneHost_internet) rfl (.resolve (ascii "example.com")) (by decide)
  obtain ⟨_,_,_,_,_,_,_,_,dialed⟩ := vetted
  cases dialed

end SrtLiveServer.VettedDial
