import SrtLiveServer.AppRouting

/-! Start of the server: the listeners of each server block, in the order in which
`CSLSManager::start` makes them. -/
namespace SrtLiveServer.ServerStart
open Bytes AppRouting
open PortList (slsParsePortList)

structure ServerBlock extends ServerConf where
  listenPublisher : Text
  listenPublisherSrtla : Text
  listenPlayer : Text
  /-- Zero where the directive is not there. -/
  listen : Int
  srtPbkeylen : Int
  srtPassphrase : Text

structure Listener where
  port : Int
  isPublisher : Bool
  srtla : Bool
  legacy : Bool
deriving DecidableEq

def publisherListener (port : Int) : Listener := ⟨port,true,false,false⟩

def srtlaListener (port : Int) : Listener := ⟨port,true,true,false⟩

def playerListener (port : Int) : Listener := ⟨port,false,false,false⟩

def legacyListener (port : Int) : Listener := ⟨port,true,false,true⟩

/-- One server block while it starts; `setups` counts the sockets tried so far. -/
structure Start where
  maps : Maps
  servers : List Listener
  setups : Nat

def Start.boundPorts (s : Start) : List Int := s.servers.map Listener.port

def keyLengths : List Int := [0,16,24,32]

/-- `CSLSListener::start`; `opens` is whether the socket of a try can be set up and listen. -/
def ServerBlock.startListener (conf : ServerBlock) (opens : Nat → Bool) (l : Listener) (s : Start) : Start × Bool :=
  let (maps,ok) := conf.initConfApp s.maps
  let s := {s with maps := maps}
  if !ok then (s,false)
  else
    let port := if 0 < l.port then l.port else conf.listen
    if port ≤ 0 then (s,false)
    else if conf.srtPbkeylen ∉ keyLengths then (s,false)
    else if conf.srtPassphrase ≠ [] ∧ (conf.srtPassphrase.length < 10 ∨ 79 < conf.srtPassphrase.length) then (s,false)
    else if opens s.setups then ({s with servers := s.servers ++ [{l with port := port}],setups := s.setups + 1},true)
    else ({s with setups := s.setups + 1},false)

def ServerBlock.createEach (conf : ServerBlock) (opens : Nat → Bool) (make : Int → Listener) : List Int → Start → Option Start
  | [],s => some s
  | port::rest,s =>
    if port ∈ s.boundPorts then createEach conf opens make rest s
    else
      let (s,ok) := conf.startListener opens (make port) s
      if ok then createEach conf opens make rest s else none

def ServerBlock.createForSpec (conf : ServerBlock) (opens : Nat → Bool) (make : Int → Listener) (spec : Text) (s : Start) :
    Option Start :=
  let (ret,ports) := slsParsePortList (some spec)
  if ret < 0 then none else conf.createEach opens make ports s

/-- A legacy listener that does not start is only logged. -/
def ServerBlock.createLegacy (conf : ServerBlock) (opens : Nat → Bool) (s : Start) : Start :=
  if 0 < conf.listen ∧ conf.listen ∉ s.boundPorts then (conf.startListener opens (legacyListener conf.listen) s).1 else s

def ServerBlock.createFallback (conf : ServerBlock) (opens : Nat → Bool) (s : Start) : Option Start :=
  if s.servers = [] then
    let (s,ok) := conf.startListener opens (legacyListener (if 0 < conf.listen then conf.listen else 30000)) s
    if ok then some s else none
  else some s

def ServerBlock.start (conf : ServerBlock) (opens : Nat → Bool) (setups : Nat) : Option Start := do
  let s ← conf.createForSpec opens publisherListener conf.listenPublisher ⟨Maps.empty,[],setups⟩
  let s ← conf.createForSpec opens srtlaListener conf.listenPublisherSrtla s
  let s ← conf.createForSpec opens playerListener conf.listenPlayer s
  conf.createFallback opens (conf.createLegacy opens s)

/-- The blocks start one after the other, each with maps of its own. -/
def startEach (opens : Nat → Bool) : Nat → List ServerBlock → Option (List Start)
  | _,[] => some []
  | setups,conf::rest => do
    let s ← conf.start opens setups
    let more ← startEach opens s.setups rest
    some (s::more)

def start (opens : Nat → Bool) (confs : List ServerBlock) : Option (List Start) :=
  if confs = [] then none else startEach opens 0 confs

section Roles

variable (conf : ServerBlock)

/-- What a port specification stands for. -/
def portsOf (spec : Text) : Option (List Int) :=
  if (slsParsePortList (some spec)).1 < 0 then none else some (slsParsePortList (some spec)).2

/-- A port that several directives name is for the first of them. -/
def fresh (make : Int → Listener) (ports : List Int) (taken : List Listener) : List Listener :=
  (ports.filter fun port => port ∉ taken.map Listener.port).map make

def assign (make : Int → Listener) (ports : List Int) (taken : List Listener) : List Listener := taken ++ fresh make ports taken

/-- The listeners that must start, or `none` where a specification is malformed. -/
def ServerBlock.roles : Option (List Listener) := do
  let publisher ← portsOf conf.listenPublisher
  let srtla ← portsOf conf.listenPublisherSrtla
  let player ← portsOf conf.listenPlayer
  some (assign playerListener player (assign srtlaListener srtla (assign publisherListener publisher [])))

/-- The settings a listener checks before it opens its socket. -/
structure ServerBlock.Startable : Prop where
  consistent : conf.Consistent
  keyLength : conf.srtPbkeylen ∈ keyLengths
  passphrase : conf.srtPassphrase = [] ∨ 10 ≤ conf.srtPassphrase.length ∧ conf.srtPassphrase.length ≤ 79

/-- What a started block serves: a listener on every port of its roles, at most one legacy
listener on a port of its own, and the maps of its configuration. -/
structure ServerBlock.Serves (roles : List Listener) (s : Start) : Prop where
  startable : conf.Startable
  maps : s.maps = conf.routing
  some : s.servers ≠ []
  once : s.boundPorts.Nodup
  listeners : s.servers = roles ∨ ∃ port, s.servers = roles ++ [legacyListener port] ∧
    (0 < conf.listen ∧ port = conf.listen ∨ roles = [] ∧ conf.listen ≤ 0 ∧ port = 30000)

end Roles

section Each

variable {conf : ServerBlock} {opens : Nat → Bool} {s s' : Start} {l : Listener}

/-- The maps are those that some runs of `init_conf_app` leave. -/
def ServerBlock.Ran (conf : ServerBlock) (s : Start) : Prop := ∃ listeners, s.maps = conf.mapsAfter listeners

def Opened (opens : Nat → Bool) (setups count : Nat) : Prop := ∀ k < count, opens (setups + k) = true

def ServerBlock.grown (conf : ServerBlock) (s : Start) (new : List Listener) : Start :=
  ⟨if new = [] then s.maps else conf.routing,s.servers ++ new,s.setups + new.length⟩

/-- The listeners started one after the other. -/
structure ServerBlock.Adds (conf : ServerBlock) (opens : Nat → Bool) (s : Start) (new : List Listener) (s' : Start) : Prop where
  startable : new = [] ∨ conf.Startable
  opened : Opened opens s.setups new.length
  grown : s' = conf.grown s new

theorem Opened.add (setups first second : Nat) :
    Opened opens setups (first + second) ↔ Opened opens setups first ∧ Opened opens (setups + first) second := by
  constructor
  · intro opened
    refine ⟨fun k low => opened k (Nat.lt_add_right second low),fun k low => ?_⟩
    rw [Nat.add_assoc]
    exact opened (first + k) (Nat.add_lt_add_left low first)
  · rintro ⟨low,high⟩ k inside
    rcases Nat.lt_or_ge k first with below | above
    · exact low k below
    · obtain ⟨rest,rfl⟩ := Nat.exists_eq_add_of_le above
      have more := high rest (Nat.lt_of_add_lt_add_left inside)
      rwa [Nat.add_assoc] at more

theorem ServerBlock.routing_ran (consistent : conf.Consistent) : ∃ listeners, conf.routing = conf.mapsAfter listeners :=
  ⟨1,(ServerConf.initConfApp_routing consistent 0).symm⟩

theorem ServerBlock.grown_maps {new : List Listener} (some : new ≠ []) : (conf.grown s new).maps = conf.routing := if_neg some

theorem ServerBlock.Adds.ran {new : List Listener} (adds : conf.Adds opens s new s') (ran : conf.Ran s) : conf.Ran s' := by
  rw [adds.grown]
  by_cases none : new = []
  · obtain ⟨listeners,maps⟩ := ran
    exact ⟨listeners,(if_pos none).trans maps⟩
  · obtain ⟨listeners,maps⟩ := routing_ran (adds.startable.resolve_left none).consistent
    exact ⟨listeners,(grown_maps none).trans maps⟩

theorem ServerBlock.Adds.append (first second : List Listener) :
    (∃ middle, conf.Adds opens s first middle ∧ conf.Adds opens middle second s') ↔ conf.Adds opens s (first ++ second) s' := by
  have length : (first ++ second).length = first.length + second.length := List.length_append
  have together : conf.grown (conf.grown s first) second = conf.grown s (first ++ second) := by
    unfold ServerBlock.grown
    rw [List.append_assoc,length,Nat.add_assoc]
    cases second with
    | nil => rw [if_pos rfl,List.append_nil]
    | cons l rest => rw [if_neg (List.cons_ne_nil l rest),if_neg (List.append_ne_nil_of_right_ne_nil first (List.cons_ne_nil l rest))]
  constructor
  · rintro ⟨_,⟨startable,opened,rfl⟩,⟨startable',opened',rfl⟩⟩
    refine ⟨?_,?_,together⟩
    · rcases startable with none | startable
      · rw [none]
        exact startable'
      · exact .inr startable
    · rw [length]
      exact (Opened.add _ _ _).mpr ⟨opened,opened'⟩
  · rintro ⟨startable,opened,grown⟩
    rw [length,Opened.add] at opened
    refine ⟨_,⟨?_,opened.1,rfl⟩,⟨?_,opened.2,grown.trans together.symm⟩⟩
    · exact startable.imp_left fun none => (List.append_eq_nil_iff.mp none).1
    · exact startable.imp_left fun none => (List.append_eq_nil_iff.mp none).2

theorem ServerBlock.initConfApp_consistent (consistent : conf.Consistent) (ran : conf.Ran s) :
    conf.initConfApp s.maps = (conf.routing,true) := by
  obtain ⟨listeners,maps⟩ := ran
  rw [maps]
  exact Prod.ext (ServerConf.initConfApp_routing consistent listeners) ((conf.initConfApp_accepts listeners).mpr consistent)

theorem ServerBlock.startListener_startable (startable : conf.Startable) (ran : conf.Ran s) (positive : 0 < l.port) :
    conf.startListener opens l s = if opens s.setups then (⟨conf.routing,s.servers ++ [l],s.setups + 1⟩,true)
      else (⟨conf.routing,s.servers,s.setups + 1⟩,false) := by
  have phrase : ¬ (conf.srtPassphrase ≠ [] ∧ (conf.srtPassphrase.length < 10 ∨ 79 < conf.srtPassphrase.length)) := by
    rintro ⟨some,short | long⟩
    · exact absurd (startable.passphrase.resolve_left some).1 (Nat.not_le_of_gt short)
    · exact absurd (startable.passphrase.resolve_left some).2 (Nat.not_le_of_gt long)
  unfold ServerBlock.startListener
  rw [initConfApp_consistent startable.consistent ran]
  dsimp only
  rw [if_neg Bool.noConfusion,if_pos positive,if_neg (Int.not_le_of_gt positive),if_neg (not_not_intro startable.keyLength),
    if_neg phrase]

theorem ServerBlock.startListener_refused (opens : Nat → Bool) (l : Listener) (refused : ¬ conf.Startable) (ran : conf.Ran s) :
    ∃ maps, conf.startListener opens l s = (⟨maps,s.servers,s.setups⟩,false) ∧ conf.Ran ⟨maps,s.servers,s.setups⟩ := by
  by_cases consistent : conf.Consistent
  · refine ⟨conf.routing,?_,routing_ran consistent⟩
    unfold ServerBlock.startListener
    rw [initConfApp_consistent consistent ran]
    dsimp only
    rw [if_neg Bool.noConfusion]
    generalize (if 0 < l.port then l.port else conf.listen) = port
    by_cases bound : port ≤ 0
    · rw [if_pos bound]
    rw [if_neg bound]
    by_cases keyLength : conf.srtPbkeylen ∈ keyLengths
    · rw [if_neg (not_not_intro keyLength)]
      by_cases phrase : conf.srtPassphrase ≠ [] ∧ (conf.srtPassphrase.length < 10 ∨ 79 < conf.srtPassphrase.length)
      · rw [if_pos phrase]
      · refine absurd ⟨consistent,keyLength,?_⟩ refused
        by_cases none : conf.srtPassphrase = []
        · exact .inl none
        · have bounds : ¬ (conf.srtPassphrase.length < 10 ∨ 79 < conf.srtPassphrase.length) := fun outside => phrase ⟨none,outside⟩
          rw [not_or,Nat.not_lt,Nat.not_lt] at bounds
          exact .inr bounds
    · rw [if_pos keyLength]
  · obtain ⟨listeners,maps⟩ := ran
    have no : (conf.initConfApp s.maps).2 = false := by
      rw [maps]
      exact Bool.eq_false_iff.mpr fun accepted => consistent ((conf.initConfApp_accepts listeners).mp accepted)
    refine ⟨(conf.initConfApp s.maps).1,?_,listeners + 1,congrArg (fun m => (conf.initConfApp m).1) maps⟩
    have result : conf.initConfApp s.maps = ((conf.initConfApp s.maps).1,false) := Prod.ext rfl no
    unfold ServerBlock.startListener
    rw [result]
    rfl

theorem ServerBlock.startListener_adds (ran : conf.Ran s) (positive : 0 < l.port) :
    conf.startListener opens l s = (s',true) ↔ conf.Adds opens s [l] s' := by
  by_cases startable : conf.Startable
  · have grown : conf.grown s [l] = ⟨conf.routing,s.servers ++ [l],s.setups + 1⟩ := by
      unfold ServerBlock.grown
      rw [if_neg (List.cons_ne_nil l [])]
      rfl
    rw [startListener_startable startable ran positive]
    split
    · rename_i opened
      rw [Prod.mk.injEq,and_iff_left rfl]
      constructor
      · rintro rfl
        refine ⟨.inr startable,fun k low => ?_,grown.symm⟩
        rw [Nat.lt_one_iff.mp low]
        exact opened
      · intro adds
        exact (adds.grown.trans grown).symm
    · rename_i shut
      refine iff_of_false (fun same => Bool.false_ne_true (congrArg Prod.snd same)) fun adds => ?_
      exact shut (adds.opened 0 Nat.zero_lt_one)
  · obtain ⟨maps,result,_⟩ := startListener_refused opens l startable ran
    rw [result]
    refine iff_of_false (fun same => Bool.false_ne_true (congrArg Prod.snd same)) fun adds => ?_
    exact startable (adds.startable.resolve_left (List.cons_ne_nil l []))

theorem ServerBlock.adds_nil : conf.Adds opens s [] s' ↔ s' = s := by
  have same : conf.grown s [] = s := by
    unfold ServerBlock.grown
    rw [if_pos rfl,List.append_nil]
    rfl
  constructor
  · intro adds
    exact adds.grown.trans same
  · intro equal
    exact ⟨.inl rfl,fun k low => absurd low (Nat.not_lt_zero k),equal.trans same.symm⟩

theorem fresh_taken {make : Int → Listener} {port : Int} {rest : List Int} {taken : List Listener}
    (bound : port ∈ taken.map Listener.port) : fresh make (port::rest) taken = fresh make rest taken := by
  unfold fresh
  rw [List.filter_cons_of_neg]
  exact fun free => of_decide_eq_true free bound

theorem fresh_free {make : Int → Listener} (made : ∀ port, (make port).port = port) {port : Int} {rest : List Int}
    {taken : List Listener} (free : port ∉ taken.map Listener.port) (once : port ∉ rest) :
    fresh make (port::rest) taken = [make port] ++ fresh make rest (taken ++ [make port]) := by
  have same : (rest.filter fun other => other ∉ (taken ++ [make port]).map Listener.port) =
      rest.filter fun other => other ∉ taken.map Listener.port := by
    apply List.filter_congr
    intro other among
    have apart : other ≠ port := by
      rintro rfl
      exact once among
    apply decide_eq_decide.mpr
    rw [List.map_append,List.map_singleton,made,List.mem_append,List.mem_singleton,or_iff_left apart]
  unfold fresh
  rw [List.filter_cons_of_pos (p := fun port => decide (port ∉ taken.map Listener.port)) (decide_eq_true free),same]
  rfl

theorem ServerBlock.createEach_cons {make : Int → Listener} {port : Int} (rest : List Int) (free : port ∉ s.boundPorts) :
    conf.createEach opens make (port::rest) s = some s' ↔
      ∃ middle, conf.startListener opens (make port) s = (middle,true) ∧ conf.createEach opens make rest middle = some s' := by
  rw [ServerBlock.createEach,if_neg free]
  obtain ⟨middle,ok⟩ := conf.startListener opens (make port) s
  cases ok with
  | false =>
    refine iff_of_false (fun none => nomatch none) ?_
    rintro ⟨other,same,_⟩
    cases same
  | true =>
    constructor
    · exact fun created => ⟨middle,rfl,created⟩
    · rintro ⟨other,same,created⟩
      cases same
      exact created

theorem ServerBlock.createEach_iff {make : Int → Listener} (made : ∀ port, (make port).port = port) {ports : List Int}
    (positive : ∀ port ∈ ports, 0 < port) (once : ports.Nodup) (ran : conf.Ran s) :
    conf.createEach opens make ports s = some s' ↔ conf.Adds opens s (fresh make ports s.servers) s' := by
  induction ports generalizing s with
  | nil =>
    refine Iff.trans ?_ adds_nil.symm
    exact ⟨fun same => (Option.some.inj same).symm,congrArg some ∘ Eq.symm⟩
  | cons port rest ih =>
    have later := fun port among => positive port (List.mem_cons_of_mem _ among)
    have distinct := List.nodup_cons.mp once
    by_cases bound : port ∈ s.boundPorts
    · rw [ServerBlock.createEach,if_pos bound,fresh_taken bound]
      exact ih later distinct.2 ran
    · rw [createEach_cons rest bound,fresh_free made bound distinct.1,← Adds.append]
      have one : 0 < (make port).port := (made port).symm ▸ positive port List.mem_cons_self
      apply exists_congr
      intro middle
      rw [startListener_adds ran one]
      apply and_congr_right
      intro first
      have servers : middle.servers = s.servers ++ [make port] := congrArg Start.servers first.grown
      rw [ih later distinct.2 (first.ran ran),servers]

theorem portsOf_ports {spec : Text} {ports : List Int} (stands : portsOf spec = some ports) :
    ports.Nodup ∧ ∀ port ∈ ports, 0 < port := by
  have bare := PortList.entries_bare spec
  unfold portsOf at stands
  rw [PortList.slsParsePortList_entries] at stands
  by_cases wrong : ∃ entry ∈ PortList.entries spec, ∀ ports, ¬ PortList.Expands entry ports
  · obtain ⟨entry,member,fails⟩ := wrong
    rw [if_pos (by rw [PortList.parseTokens_fails bare [] member fails]; decide)] at stands
    cases stands
  · have each : ∀ entry ∈ PortList.entries spec, ∃ ports, PortList.Expands entry ports := by
      intro entry member
      by_contra nothing
      exact wrong ⟨entry,member,not_exists.mp nothing⟩
    obtain ⟨expansions,all⟩ := PortList.expansions_of_each each
    have parsed := @PortList.parseTokens_expands [] _ _ bare all
    rw [List.eraseDups_nil,List.nil_append] at parsed
    rw [parsed,if_neg (Int.not_lt.mpr (Int.natCast_nonneg _))] at stands
    cases stands
    refine ⟨PortList.nodup_eraseDups _,fun port among => ?_⟩
    exact (PortList.expansions_range all port (List.mem_eraseDups.mp among)).1

theorem ServerBlock.createForSpec_iff {make : Int → Listener} (made : ∀ port, (make port).port = port) {spec : Text}
    (ran : conf.Ran s) : conf.createForSpec opens make spec s = some s' ↔
      ∃ ports, portsOf spec = some ports ∧ conf.Adds opens s (fresh make ports s.servers) s' := by
  have created : conf.createForSpec opens make spec s = (portsOf spec).bind fun ports => conf.createEach opens make ports s := by
    unfold ServerBlock.createForSpec portsOf
    obtain ⟨ret,ports⟩ := slsParsePortList (some spec)
    dsimp only
    split
    · rfl
    · rfl
  rw [created,Option.bind_eq_some_iff]
  apply exists_congr
  intro ports
  apply and_congr_right
  intro stands
  obtain ⟨once,positive⟩ := portsOf_ports stands
  exact createEach_iff made positive once ran

theorem assign_once {make : Int → Listener} (made : ∀ port, (make port).port = port) {ports : List Int} {taken : List Listener}
    (once : ports.Nodup) (apart : (taken.map Listener.port).Nodup) : ((assign make ports taken).map Listener.port).Nodup := by
  have same : (fresh make ports taken).map Listener.port = ports.filter fun port => port ∉ taken.map Listener.port := by
    rw [fresh,List.map_map]
    exact (List.map_congr_left fun port _ => made port).trans (List.map_id _)
  rw [assign,List.map_append,same]
  refine List.nodup_append.mpr ⟨apart,once.filter _,fun port bound other new equal => ?_⟩
  subst equal
  exact of_decide_eq_true (List.mem_filter.mp new).2 bound

theorem ServerBlock.roles_once {roles : List Listener} (named : conf.roles = some roles) : (roles.map Listener.port).Nodup := by
  obtain ⟨publisher,first,named⟩ := Option.bind_eq_some_iff.mp named
  obtain ⟨srtla,second,named⟩ := Option.bind_eq_some_iff.mp named
  obtain ⟨player,third,named⟩ := Option.bind_eq_some_iff.mp named
  cases named
  apply assign_once (fun _ => rfl) (portsOf_ports third).1
  apply assign_once (fun _ => rfl) (portsOf_ports second).1
  exact assign_once (fun _ => rfl) (portsOf_ports first).1 List.nodup_nil

theorem ServerBlock.start_iff (setups : Nat) : conf.start opens setups = some s' ↔
    ∃ roles middle, conf.roles = some roles ∧ conf.Adds opens ⟨Maps.empty,[],setups⟩ roles middle ∧
      conf.createFallback opens (conf.createLegacy opens middle) = some s' := by
  have empty : conf.Ran ⟨Maps.empty,[],setups⟩ := ⟨0,rfl⟩
  constructor
  · intro started
    obtain ⟨s1,first,started⟩ := Option.bind_eq_some_iff.mp started
    obtain ⟨s2,second,started⟩ := Option.bind_eq_some_iff.mp started
    obtain ⟨s3,third,started⟩ := Option.bind_eq_some_iff.mp started
    obtain ⟨publisher,stands1,adds1⟩ := (createForSpec_iff (fun _ => rfl) empty).mp first
    have servers1 : s1.servers = assign publisherListener publisher [] := congrArg Start.servers adds1.grown
    obtain ⟨srtla,stands2,adds2⟩ := (createForSpec_iff (fun _ => rfl) (adds1.ran empty)).mp second
    have servers2 : s2.servers = s1.servers ++ fresh srtlaListener srtla s1.servers := congrArg Start.servers adds2.grown
    obtain ⟨player,stands3,adds3⟩ := (createForSpec_iff (fun _ => rfl) (adds2.ran (adds1.ran empty))).mp third
    have both := (Adds.append _ _).mp ⟨s1,adds1,adds2⟩
    have all := (Adds.append _ _).mp ⟨s2,both,adds3⟩
    refine ⟨_,s3,?_,all,started⟩
    unfold ServerBlock.roles
    rw [stands1,stands2,stands3,servers2,servers1]
    rfl
  · rintro ⟨roles,middle,named,adds,finished⟩
    obtain ⟨publisher,stands1,named⟩ := Option.bind_eq_some_iff.mp named
    obtain ⟨srtla,stands2,named⟩ := Option.bind_eq_some_iff.mp named
    obtain ⟨player,stands3,named⟩ := Option.bind_eq_some_iff.mp named
    cases named
    obtain ⟨s2,both,adds3⟩ := (Adds.append _ _).mpr adds
    obtain ⟨s1,adds1,adds2⟩ := (Adds.append _ _).mpr both
    have servers1 : s1.servers = assign publisherListener publisher [] := congrArg Start.servers adds1.grown
    have servers2 : s2.servers = assign srtlaListener srtla (assign publisherListener publisher []) :=
      congrArg Start.servers both.grown
    rw [← servers1] at adds2
    rw [← servers2] at adds3
    have first := (createForSpec_iff (fun _ => rfl) empty).mpr ⟨publisher,stands1,adds1⟩
    have second := (createForSpec_iff (fun _ => rfl) (adds1.ran empty)).mpr ⟨srtla,stands2,adds2⟩
    have third := (createForSpec_iff (fun _ => rfl) (both.ran empty)).mpr ⟨player,stands3,adds3⟩
    refine Option.bind_eq_some_iff.mpr ⟨s1,first,?_⟩
    refine Option.bind_eq_some_iff.mpr ⟨s2,second,?_⟩
    exact Option.bind_eq_some_iff.mpr ⟨middle,third,finished⟩

theorem ServerBlock.createLegacy_cases (opens : Nat → Bool) (ran : conf.Ran s) :
    (0 < conf.listen ∧ conf.listen ∉ s.boundPorts ∧ conf.Adds opens s [legacyListener conf.listen] (conf.createLegacy opens s)) ∨
      ((conf.createLegacy opens s).servers = s.servers ∧ conf.Ran (conf.createLegacy opens s) ∧
        (conf.Startable → s.maps = conf.routing → (conf.createLegacy opens s).maps = conf.routing)) := by
  unfold ServerBlock.createLegacy
  split
  · rename_i free
    by_cases startable : conf.Startable
    · cases opened : opens s.setups with
      | true =>
        refine .inl ⟨free.1,free.2,(startListener_adds ran free.1).mp ?_⟩
        rw [startListener_startable startable ran free.1,opened]
        rfl
      | false =>
        rw [startListener_startable startable ran free.1,opened]
        exact .inr ⟨rfl,routing_ran startable.consistent,fun _ _ => rfl⟩
    · obtain ⟨maps,result,still⟩ := startListener_refused opens (legacyListener conf.listen) startable ran
      rw [result]
      exact .inr ⟨rfl,still,fun holds => absurd holds startable⟩
  · exact .inr ⟨rfl,ran,fun _ same => same⟩

theorem ServerBlock.fallback_positive (conf : ServerBlock) :
    0 < (legacyListener (if 0 < conf.listen then conf.listen else 30000)).port := by
  unfold legacyListener
  dsimp only
  split
  · assumption
  · decide

theorem ServerBlock.createFallback_cases (ran : conf.Ran s) (started : conf.createFallback opens s = some s') :
    (s.servers ≠ [] ∧ s' = s) ∨
      (s.servers = [] ∧ conf.Adds opens s [legacyListener (if 0 < conf.listen then conf.listen else 30000)] s') := by
  unfold ServerBlock.createFallback at started
  split at started
  · rename_i none
    refine .inr ⟨none,(startListener_adds ran (fallback_positive conf)).mp ?_⟩
    generalize conf.startListener opens (legacyListener (if 0 < conf.listen then conf.listen else 30000)) s = result at started ⊢
    obtain ⟨last,ok⟩ := result
    cases ok with
    | false => cases started
    | true =>
      cases started
      rfl
  · rename_i some
    exact .inl ⟨some,(Option.some.inj started).symm⟩

theorem ServerBlock.Adds.one (adds : conf.Adds opens s [l] s') :
    conf.Startable ∧ s'.maps = conf.routing ∧ s'.servers = s.servers ++ [l] := by
  refine ⟨adds.startable.resolve_left (List.cons_ne_nil l []),?_,congrArg Start.servers adds.grown⟩
  rw [adds.grown]
  exact grown_maps (List.cons_ne_nil l [])

theorem ServerBlock.start_serves {setups : Nat} (started : conf.start opens setups = some s') :
    ∃ roles, conf.roles = some roles ∧ conf.Serves roles s' := by
  obtain ⟨roles,middle,named,adds,finished⟩ := (start_iff setups).mp started
  have ran : conf.Ran middle := adds.ran ⟨0,rfl⟩
  have servers : middle.servers = roles := congrArg Start.servers adds.grown
  have once : middle.boundPorts.Nodup := by
    rw [Start.boundPorts,servers]
    exact roles_once named
  refine ⟨roles,named,?_⟩
  rcases createLegacy_cases opens ran with ⟨wanted,free,legacy⟩ | ⟨same,still,kept⟩
  · obtain ⟨startable,maps,last⟩ := legacy.one
    have some : (conf.createLegacy opens middle).servers ≠ [] := by
      rw [last]
      exact List.concat_ne_nil _ _
    rcases createFallback_cases (legacy.ran ran) finished with ⟨_,rfl⟩ | ⟨none,_⟩
    · refine ⟨startable,maps,some,?_,.inr ⟨conf.listen,?_,.inl ⟨wanted,rfl⟩⟩⟩
      · rw [Start.boundPorts,last,List.map_append]
        refine List.nodup_append.mpr ⟨once,List.nodup_singleton _,fun port bound other new equal => ?_⟩
        have here : port = conf.listen := equal.trans (List.mem_singleton.mp new)
        exact free (here ▸ bound)
      · rw [last,servers]
    · exact absurd none some
  · rcases createFallback_cases still finished with ⟨some,rfl⟩ | ⟨none,fallback⟩
    · have filled : roles ≠ [] := fun none => some (same.trans (servers.trans none))
      have startable : conf.Startable := adds.startable.resolve_left filled
      have maps : middle.maps = conf.routing := by
        rw [adds.grown]
        exact grown_maps filled
      refine ⟨startable,kept startable maps,some,?_,.inl (same.trans servers)⟩
      rw [Start.boundPorts,same]
      exact once
    · obtain ⟨startable,maps,last⟩ := fallback.one
      have empty : roles = [] := servers.symm.trans (same.symm.trans none)
      rw [none,List.nil_append] at last
      refine ⟨startable,maps,?_,?_,.inr ⟨if 0 < conf.listen then conf.listen else 30000,?_,?_⟩⟩
      · rw [last]
        exact List.cons_ne_nil _ _
      · rw [Start.boundPorts,last]
        exact List.nodup_singleton _
      · rw [last,empty]
        rfl
      · split
        · rename_i wanted
          exact .inl ⟨wanted,rfl⟩
        · rename_i unwanted
          exact .inr ⟨empty,Int.not_lt.mp unwanted,rfl⟩

theorem ServerBlock.start_total (opens : Nat → Bool) (all : ∀ k, opens k = true) (startable : conf.Startable)
    {roles : List Listener} (named : conf.roles = some roles) (setups : Nat) : ∃ s, conf.start opens setups = some s := by
  have adds : conf.Adds opens ⟨Maps.empty,[],setups⟩ roles (conf.grown ⟨Maps.empty,[],setups⟩ roles) :=
    ⟨.inr startable,fun k _ => all _,rfl⟩
  have ran : conf.Ran (conf.createLegacy opens (conf.grown ⟨Maps.empty,[],setups⟩ roles)) := by
    rcases createLegacy_cases opens (adds.ran ⟨0,rfl⟩) with ⟨_,_,legacy⟩ | ⟨_,still,_⟩
    · exact legacy.ran (adds.ran ⟨0,rfl⟩)
    · exact still
  generalize final : conf.createLegacy opens (conf.grown ⟨Maps.empty,[],setups⟩ roles) = s at ran
  have finished : ∃ s', conf.createFallback opens s = some s' := by
    unfold ServerBlock.createFallback
    split
    · rw [startListener_startable startable ran (fallback_positive conf),all]
      exact ⟨_,rfl⟩
    · exact ⟨s,rfl⟩
  obtain ⟨s',finished⟩ := finished
  exact ⟨s',(start_iff setups).mpr ⟨roles,_,named,adds,final ▸ finished⟩⟩

end Each

section All

variable {opens : Nat → Bool}

theorem startEach_serves {setups : Nat} {confs : List ServerBlock} {starts : List Start}
    (started : startEach opens setups confs = some starts) :
    List.Forall₂ (fun conf s => ∃ roles, conf.roles = some roles ∧ conf.Serves roles s) confs starts := by
  induction confs generalizing setups starts with
  | nil =>
    cases started
    exact .nil
  | cons conf confs ih =>
    obtain ⟨s,one,started⟩ := Option.bind_eq_some_iff.mp started
    obtain ⟨more,rest,started⟩ := Option.bind_eq_some_iff.mp started
    cases started
    exact .cons (ServerBlock.start_serves one) (ih rest)

theorem served_valid {confs : List ServerBlock} {starts : List Start}
    (served : List.Forall₂ (fun conf s => ∃ roles, conf.roles = some roles ∧ conf.Serves roles s) confs starts) :
    ∀ conf ∈ confs, conf.Startable ∧ ∃ roles, conf.roles = some roles := by
  induction served with
  | nil => exact fun conf among => nomatch among
  | cons one rest ih =>
    obtain ⟨roles,named,serves⟩ := one
    exact List.forall_mem_cons.mpr ⟨⟨serves.startable,roles,named⟩,ih⟩

theorem startEach_total (all : ∀ k, opens k = true) {confs : List ServerBlock}
    (valid : ∀ conf ∈ confs, conf.Startable ∧ ∃ roles, conf.roles = some roles) (setups : Nat) :
    ∃ starts, startEach opens setups confs = some starts := by
  induction confs generalizing setups with
  | nil => exact ⟨[],rfl⟩
  | cons conf confs ih =>
    obtain ⟨startable,roles,named⟩ := valid conf List.mem_cons_self
    obtain ⟨s,one⟩ := ServerBlock.start_total opens all startable named setups
    obtain ⟨more,rest⟩ := ih (fun other among => valid other (List.mem_cons_of_mem conf among)) s.setups
    refine ⟨s::more,Option.bind_eq_some_iff.mpr ⟨s,one,?_⟩⟩
    exact Option.bind_eq_some_iff.mpr ⟨more,rest,rfl⟩

/-- A server that starts serves every block as it is configured, whatever sockets could not
be opened; and where all can, nothing but the configuration keeps its listeners from
starting. -/
theorem start_serves_configuration (opens : Nat → Bool) (confs : List ServerBlock) :
    (∀ starts, start opens confs = some starts →
      List.Forall₂ (fun conf s => ∃ roles, conf.roles = some roles ∧ conf.Serves roles s) confs starts) ∧
    ((∀ k, opens k = true) → ((∃ starts, start opens confs = some starts) ↔
      confs ≠ [] ∧ ∀ conf ∈ confs, conf.Startable ∧ ∃ roles, conf.roles = some roles)) := by
  have serves : ∀ starts, start opens confs = some starts → confs ≠ [] ∧
      List.Forall₂ (fun conf s => ∃ roles, conf.roles = some roles ∧ conf.Serves roles s) confs starts := by
    intro starts started
    unfold start at started
    split at started
    · cases started
    · rename_i some
      exact ⟨some,startEach_serves started⟩
  refine ⟨fun starts started => (serves starts started).2,fun all => ⟨?_,?_⟩⟩
  · rintro ⟨starts,started⟩
    obtain ⟨some,served⟩ := serves starts started
    exact ⟨some,served_valid served⟩
  · rintro ⟨some,valid⟩
    obtain ⟨starts,started⟩ := startEach_total all valid 0
    refine ⟨starts,?_⟩
    rw [start,if_neg some]
    exact started

theorem start_serves_configuration_two_ports :
    let conf : ServerBlock := ⟨⟨ascii "watch",ascii "studio",[⟨ascii "in",ascii "out",[]⟩]⟩,ascii "7001",[],ascii "7001,7002",0,16,[]⟩
    ∃ starts, start (fun _ => true) [conf] = some starts := by
  intro conf
  have consistent : conf.Consistent := (conf.initConfApp_accepts 0).mp (by decide)
  refine ((start_serves_configuration (fun _ => true) [conf]).2 fun _ => rfl).mpr ⟨List.cons_ne_nil _ _,?_⟩
  intro other among
  cases List.mem_singleton.mp among
  exact ⟨⟨consistent,by decide,.inl rfl⟩,[publisherListener 7001,playerListener 7002],by decide⟩

end All

end SrtLiveServer.ServerStart
