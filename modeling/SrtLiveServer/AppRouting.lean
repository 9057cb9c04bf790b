import SrtLiveServer.ListenerSockets
import SrtLiveServer.PortList
import SrtLiveServer.UpstreamRotation
import SrtLiveServer.WriteOnce

/-! The tables that say which stream a connection is for. All listeners of a server block
share its maps, and each of them runs `init_conf_app` over the same configuration when it
starts, so every listener but the first finds the maps filled. -/
namespace SrtLiveServer.AppRouting
open Bytes StreamId PlayerKeyGate
open WriteOnce (Filled Functional)
open PortList (slsConfStringSplit)
open UpstreamRotation (Mode)

structure RelayConf where
  type : Text
  mode : Text
  upstreams : Text
  reconnectInterval : Int
  idleStreamsTimeout : Int

structure App where
  appPublisher : Text
  appPlayer : Text
  relays : List RelayConf

structure ServerConf where
  domainPlayer : Text
  domainPublisher : Text
  apps : List App

structure RelayInfo where
  type : Text
  mode : Mode
  upstreams : List Text
  reconnectInterval : Int
  idleStreamsTimeout : Int
deriving DecidableEq

/-- `m_map_uplive_2_conf`, whose values are the app blocks by their position,
`m_map_live_2_uplive`, and the relay configurations of `m_map_puller` and `m_map_pusher`. -/
structure Maps where
  uplive2Conf : Text → Option Nat
  live2Uplive : Text → Option Text
  pullers : Text → Option RelayInfo
  pushers : Text → Option RelayInfo

def Maps.empty : Maps := ⟨fun _ => none,fun _ => none,fun _ => none,fun _ => none⟩

def Maps.setConf (m : Maps) (key : Text) (ca : Nat) : Option Maps :=
  if (m.uplive2Conf key).isSome then none else some {m with uplive2Conf := Function.update m.uplive2Conf key (some ca)}

def Maps.setLive2Uplive (m : Maps) (live uplive : Text) : Option Maps :=
  if (m.live2Uplive live).isSome then none
  else some {m with live2Uplive := Function.update m.live2Uplive live (some uplive)}

def Maps.getUplive (m : Maps) (key : Text) : Text := (m.live2Uplive key).getD []

def relayMode (mode : Text) : Mode :=
  if mode = ascii "loop" then .loop else if mode = ascii "all" then .all else .hash

/-- What `add_relay_conf` makes of a relay block, if that names an upstream. -/
def RelayConf.info (cr : RelayConf) : Option RelayInfo :=
  let upstreams := slsConfStringSplit cr.upstreams (byte ' ')
  if upstreams = [] then none
  else some ⟨cr.type,relayMode cr.mode,upstreams,cr.reconnectInterval,cr.idleStreamsTimeout⟩

def addRelayConf (infos : Text → Option RelayInfo) (appUplive : Text) (cr : RelayConf) :
    Option (Text → Option RelayInfo) :=
  if (infos appUplive).isSome then none
  else cr.info.map fun sri => Function.update infos appUplive (some sri)

/-- The player domains of an app; the second component is whether it goes on. -/
def initLives (uplive live : Text) : List Text → Maps → Maps × Bool
  | [],m => (m,true)
  | domain::rest,m =>
    let temp := keyApp domain live
    if uplive = temp then (m,false)
    else match m.setLive2Uplive temp uplive with
    | some m => initLives uplive live rest m
    | none => if m.getUplive temp ≠ [] ∧ m.getUplive temp = uplive then initLives uplive live rest m else (m,false)

/-- The relay blocks of an app; one that cannot be added is only logged. -/
def initRelays (uplive : Text) : List RelayConf → Maps → Maps × Bool
  | [],m => (m,true)
  | cr::rest,m =>
    if cr.type = ascii "pull" then initRelays uplive rest {m with pullers := (addRelayConf m.pullers uplive cr).getD m.pullers}
    else if cr.type = ascii "push" then
      initRelays uplive rest {m with pushers := (addRelayConf m.pushers uplive cr).getD m.pushers}
    else (m,false)

def initApp (domains : List Text) (publisher : Text) (ca : Nat) (app : App) (m : Maps) : Maps × Bool :=
  if app.appPublisher = [] then (m,false)
  else
    let uplive := keyApp publisher app.appPublisher
    -- an app block is never null, so a key that is taken is always skipped
    let m := (m.setConf uplive ca).getD m
    if app.appPlayer = [] then (m,false)
    else
      let (m,ok) := initLives uplive app.appPlayer domains m
      if ok then initRelays uplive app.relays m else (m,false)

def initApps (domains : List Text) (publisher : Text) : Nat → List App → Maps → Maps × Bool
  | _,[],m => (m,true)
  | ca,app::rest,m =>
    let (m,ok) := initApp domains publisher ca app m
    if ok then initApps domains publisher (ca + 1) rest m else (m,false)

def ServerConf.domains (conf : ServerConf) : List Text := slsConfStringSplit conf.domainPlayer (byte ' ')

/-- `init_conf_app` of one listener, on the maps that all listeners share. -/
def ServerConf.initConfApp (conf : ServerConf) (m : Maps) : Maps × Bool :=
  if conf.domains = [] then (m,false)
  else if conf.domainPublisher = [] then (m,false)
  else if conf.apps = [] then (m,false)
  else initApps conf.domains conf.domainPublisher 0 conf.apps m

section Entries

/-- What the configuration puts into each map, in its order. -/
@[ext] structure Entries where
  confs : List (Text × Nat)
  lives : List (Text × Text)
  pulls : List (Text × RelayInfo)
  pushes : List (Text × RelayInfo)

def Entries.append (one other : Entries) : Entries :=
  ⟨one.confs ++ other.confs,one.lives ++ other.lives,one.pulls ++ other.pulls,one.pushes ++ other.pushes⟩

instance : Append Entries := ⟨Entries.append⟩

def liveEntries (uplive live : Text) (domains : List Text) : Entries :=
  ⟨[],domains.map fun domain => (keyApp domain live,uplive),[],[]⟩

def RelayConf.entries (cr : RelayConf) (kind uplive : Text) : List (Text × RelayInfo) :=
  if cr.type = kind then cr.info.toList.map fun sri => (uplive,sri) else []

def relayEntries (uplive : Text) (relays : List RelayConf) : Entries :=
  ⟨[],[],relays.flatMap fun cr => cr.entries (ascii "pull") uplive,relays.flatMap fun cr => cr.entries (ascii "push") uplive⟩

def App.entries (app : App) (domains : List Text) (publisher : Text) (ca : Nat) : Entries :=
  let uplive := keyApp publisher app.appPublisher
  ⟨[(uplive,ca)],[],[],[]⟩ ++ (liveEntries uplive app.appPlayer domains ++ relayEntries uplive app.relays)

def appsEntries (domains : List Text) (publisher : Text) : Nat → List App → Entries
  | _,[] => ⟨[],[],[],[]⟩
  | ca,app::rest => app.entries domains publisher ca ++ appsEntries domains publisher (ca + 1) rest

def ServerConf.entries (conf : ServerConf) : Entries := appsEntries conf.domains conf.domainPublisher 0 conf.apps

/-- The maps are on their way to `all`, and hold at least the entries of `done`. -/
structure Entries.Fill (all done : Entries) (m : Maps) : Prop where
  confs : Filled all.confs done.confs m.uplive2Conf
  lives : Filled all.lives done.lives m.live2Uplive
  pulls : Filled all.pulls done.pulls m.pullers
  pushes : Filled all.pushes done.pushes m.pushers

def Entries.Ahead (all done part : Entries) : Prop := ∃ rest, all = done ++ part ++ rest

def Entries.none : Entries := ⟨[],[],[],[]⟩

/-- A step that leaves the maps on their way, accepts under one condition on the
configuration alone, and has then put its entries in. -/
structure Entries.Step (all done : Entries) (accepted : Prop) (result : Maps × Bool) : Prop where
  fill : all.Fill Entries.none result.1
  accepts : result.2 = true ↔ accepted
  filled : result.2 = true → all.Fill done result.1

variable {m : Maps} {all done part rest : Entries} {accepted : Prop}

theorem Entries.append_assoc (one two three : Entries) : one ++ two ++ three = one ++ (two ++ three) := by
  apply Entries.ext
  · exact List.append_assoc one.confs two.confs three.confs
  · exact List.append_assoc one.lives two.lives three.lives
  · exact List.append_assoc one.pulls two.pulls three.pulls
  · exact List.append_assoc one.pushes two.pushes three.pushes

theorem Entries.append_none (one : Entries) : one ++ Entries.none = one := by
  apply Entries.ext
  · exact List.append_nil one.confs
  · exact List.append_nil one.lives
  · exact List.append_nil one.pulls
  · exact List.append_nil one.pushes

theorem Entries.Fill.none (fill : all.Fill done m) : all.Fill Entries.none m :=
  ⟨fill.confs.nil,fill.lives.nil,fill.pulls.nil,fill.pushes.nil⟩

theorem Entries.Ahead.left (ahead : all.Ahead done (part ++ rest)) : all.Ahead done part := by
  obtain ⟨after,rfl⟩ := ahead
  exact ⟨rest ++ after,by simp only [Entries.append_assoc]⟩

theorem Entries.Ahead.right (ahead : all.Ahead done (part ++ rest)) : all.Ahead (done ++ part) rest := by
  obtain ⟨after,rfl⟩ := ahead
  exact ⟨after,by simp only [Entries.append_assoc]⟩

theorem Entries.Step.stop (fill : all.Fill done m) (refused : ¬ accepted) : all.Step rest accepted (m,false) := by
  refine ⟨fill.none,iff_of_false Bool.false_ne_true refused,?_⟩
  intro h
  cases h

theorem Entries.Step.accept (fill : all.Fill done m) (holds : accepted) : all.Step done accepted (m,true) :=
  ⟨fill.none,iff_of_true rfl holds,fun _ => fill⟩

theorem Entries.Step.under {result : Maps × Bool} {first : Prop} (holds : first) (step : all.Step done accepted result) :
    all.Step done (first ∧ accepted) result :=
  ⟨step.fill,step.accepts.trans (and_iff_right holds).symm,step.filled⟩

theorem Entries.Step.andThen {first : Maps × Bool} {f : Maps → Maps × Bool} {next : Prop}
    (step : all.Step done accepted first) (after : ∀ m, all.Fill done m → all.Step rest next (f m)) :
    all.Step rest (accepted ∧ next) (if first.2 then f first.1 else (first.1,false)) := by
  split
  · rename_i ok
    exact .under (step.accepts.mp ok) (after first.1 (step.filled ok))
  · rename_i no
    exact .stop step.fill fun holds => no (step.accepts.mpr holds.1)

theorem Maps.setConf_getD (key : Text) (ca : Nat) :
    (m.setConf key ca).getD m = {m with uplive2Conf := WriteOnce.insert m.uplive2Conf key ca} := by
  unfold Maps.setConf WriteOnce.insert
  split
  · rfl
  · rfl

theorem addRelayConf_getD (infos : Text → Option RelayInfo) (uplive : Text) (cr : RelayConf) :
    (addRelayConf infos uplive cr).getD infos = match cr.info with
      | some sri => WriteOnce.insert infos uplive sri
      | none => infos := by
  unfold addRelayConf WriteOnce.insert
  cases cr.info with
  | none =>
    split
    · rfl
    · rfl
  | some sri =>
    split
    · rfl
    · rfl

theorem initLives_cons {uplive : Text} (named : uplive ≠ []) (live domain : Text) (domains : List Text) :
    initLives uplive live (domain::domains) m =
      if uplive = keyApp domain live then (m,false) else
        let table := WriteOnce.insert m.live2Uplive (keyApp domain live) uplive
        if table (keyApp domain live) = some uplive then initLives uplive live domains {m with live2Uplive := table}
        else (m,false) := by
  rw [initLives]
  apply if_congr Iff.rfl rfl
  unfold Maps.setLive2Uplive WriteOnce.insert Maps.getUplive
  cases present : m.live2Uplive (keyApp domain live) with
  | none => simp only [Option.isSome_none,Bool.false_eq_true,if_false,Function.update_self,if_true]
  | some old =>
    have same : (old ≠ [] ∧ old = uplive) ↔ old = uplive := by
      refine and_iff_right_of_imp fun same => ?_
      rw [same]
      exact named
    simp only [Option.isSome_some,if_true,present,Option.getD_some,same,Option.some.injEq]

theorem liveEntries_cons (uplive live domain : Text) (domains : List Text) :
    liveEntries uplive live (domain::domains) = ⟨[],[(keyApp domain live,uplive)],[],[]⟩ ++ liveEntries uplive live domains := rfl

theorem relayEntries_cons (uplive : Text) (cr : RelayConf) (relays : List RelayConf) :
    relayEntries uplive (cr::relays) =
      ⟨[],[],cr.entries (ascii "pull") uplive,cr.entries (ascii "push") uplive⟩ ++ relayEntries uplive relays := rfl

theorem appsEntries_cons (domains : List Text) (publisher : Text) (ca : Nat) (app : App) (apps : List App) :
    appsEntries domains publisher ca (app::apps) = app.entries domains publisher ca ++ appsEntries domains publisher (ca + 1) apps := rfl

theorem Entries.Fill.live {live uplive : Text} (fill : all.Fill done m) (ahead : all.Ahead done ⟨[],[(live,uplive)],[],[]⟩) :
    all.Fill (done ++ ⟨[],[(live,uplive)],[],[]⟩) {m with live2Uplive := WriteOnce.insert m.live2Uplive live uplive} := by
  obtain ⟨rest,split⟩ := ahead
  have lives : all.lives = done.lives ++ (live,uplive)::rest.lives := by
    rw [split]
    exact List.append_assoc done.lives [(live,uplive)] rest.lives
  exact ⟨fill.confs.frame,fill.lives.insert ⟨rest.lives,lives⟩,fill.pulls.frame,fill.pushes.frame⟩

theorem Entries.Fill.conf {uplive : Text} {ca : Nat} (fill : all.Fill done m) (ahead : all.Ahead done ⟨[(uplive,ca)],[],[],[]⟩) :
    all.Fill (done ++ ⟨[(uplive,ca)],[],[],[]⟩) {m with uplive2Conf := WriteOnce.insert m.uplive2Conf uplive ca} := by
  obtain ⟨rest,split⟩ := ahead
  have confs : all.confs = done.confs ++ (uplive,ca)::rest.confs := by
    rw [split]
    exact List.append_assoc done.confs [(uplive,ca)] rest.confs
  exact ⟨fill.confs.insert ⟨rest.confs,confs⟩,fill.lives.frame,fill.pulls.frame,fill.pushes.frame⟩

theorem initLives_step {uplive : Text} (named : uplive ≠ []) (live : Text) (domains : List Text) (done : Entries) (m : Maps)
    (fill : all.Fill done m) (ahead : all.Ahead done (liveEntries uplive live domains)) :
    all.Step (done ++ liveEntries uplive live domains)
      (∀ domain ∈ domains, uplive ≠ keyApp domain live ∧ all.lives.lookup (keyApp domain live) = some uplive)
      (initLives uplive live domains m) := by
  induction domains generalizing done m with
  | nil =>
    have same : done ++ liveEntries uplive live [] = done := done.append_none
    rw [same]
    exact .accept fill fun domain among => nomatch among
  | cons domain domains ih =>
    rw [liveEntries_cons] at ahead ⊢
    rw [initLives_cons named,← Entries.append_assoc,List.forall_mem_cons]
    have put := fill.live ahead.left
    have value : WriteOnce.insert m.live2Uplive (keyApp domain live) uplive (keyApp domain live) = all.lives.lookup (keyApp domain live) :=
      put.lives.insert_value
    split
    · rename_i self
      exact .stop fill fun holds => holds.1.1 self
    rename_i apart
    dsimp only
    rw [value]
    split
    · rename_i found
      exact .under ⟨apart,found⟩ (ih _ _ put ahead.right)
    · rename_i other
      exact .stop fill fun holds => other holds.1.2

theorem addRelayConf_filled {entries done : List (Text × RelayInfo)} {infos : Text → Option RelayInfo} {uplive : Text} {cr : RelayConf}
    (filled : Filled entries done infos) (ahead : ∃ rest, entries = done ++ cr.info.toList.map (fun sri => (uplive,sri)) ++ rest) :
    Filled entries (done ++ cr.info.toList.map fun sri => (uplive,sri)) ((addRelayConf infos uplive cr).getD infos) := by
  rw [addRelayConf_getD]
  cases named : cr.info with
  | none => exact filled.frame
  | some sri =>
    obtain ⟨rest,split⟩ := ahead
    rw [named,Option.toList_some,List.map_singleton,List.append_assoc] at split
    exact filled.insert ⟨rest,split⟩

theorem pull_ne_push : ascii "pull" ≠ ascii "push" := by decide

theorem initRelays_step (uplive : Text) (relays : List RelayConf) (done : Entries) (m : Maps) (fill : all.Fill done m)
    (ahead : all.Ahead done (relayEntries uplive relays)) :
    all.Step (done ++ relayEntries uplive relays) (∀ cr ∈ relays, cr.type = ascii "pull" ∨ cr.type = ascii "push")
      (initRelays uplive relays m) := by
  induction relays generalizing done m with
  | nil =>
    have same : done ++ relayEntries uplive [] = done := done.append_none
    rw [same]
    exact .accept fill fun cr among => nomatch among
  | cons cr relays ih =>
    rw [relayEntries_cons] at ahead ⊢
    rw [initRelays,← Entries.append_assoc,List.forall_mem_cons]
    obtain ⟨rest,split⟩ := ahead.left
    split
    · rename_i pull
      have step := ih (done ++ ⟨[],[],cr.entries (ascii "pull") uplive,cr.entries (ascii "push") uplive⟩)
        {m with pullers := (addRelayConf m.pullers uplive cr).getD m.pullers} (by
          have other : cr.entries (ascii "push") uplive = [] := if_neg (pull ▸ pull_ne_push)
          have own : cr.entries (ascii "pull") uplive = cr.info.toList.map fun sri => (uplive,sri) := if_pos pull
          rw [own,other] at split ⊢
          exact ⟨fill.confs.frame,fill.lives.frame,addRelayConf_filled fill.pulls ⟨rest.pulls,congrArg Entries.pulls split⟩,
            fill.pushes.frame⟩) ahead.right
      exact .under (.inl pull) step
    rename_i notPull
    split
    · rename_i push
      have step := ih (done ++ ⟨[],[],cr.entries (ascii "pull") uplive,cr.entries (ascii "push") uplive⟩)
        {m with pushers := (addRelayConf m.pushers uplive cr).getD m.pushers} (by
          have other : cr.entries (ascii "pull") uplive = [] := if_neg notPull
          have own : cr.entries (ascii "push") uplive = cr.info.toList.map fun sri => (uplive,sri) := if_pos push
          rw [own,other] at split ⊢
          exact ⟨fill.confs.frame,fill.lives.frame,fill.pulls.frame,
            addRelayConf_filled fill.pushes ⟨rest.pushes,congrArg Entries.pushes split⟩⟩) ahead.right
      exact .under (.inr push) step
    · rename_i notPush
      exact .stop fill fun holds => holds.1.elim notPull notPush

/-- What an app block must say for a listener to accept it. -/
structure App.Accepted (app : App) (domains : List Text) (publisher : Text) (lives : List (Text × Text)) : Prop where
  published : app.appPublisher ≠ []
  played : app.appPlayer ≠ []
  routed : ∀ domain ∈ domains, keyApp publisher app.appPublisher ≠ keyApp domain app.appPlayer ∧
    lives.lookup (keyApp domain app.appPlayer) = some (keyApp publisher app.appPublisher)
  typed : ∀ cr ∈ app.relays, cr.type = ascii "pull" ∨ cr.type = ascii "push"

theorem keyApp_ne_nil (host app : Text) : keyApp host app ≠ [] := by
  intro none
  have slash := (List.append_eq_nil_iff.mp none).1
  exact List.cons_ne_nil _ _ (List.append_eq_nil_iff.mp slash).2

theorem initApp_step (domains : List Text) (publisher : Text) (ca : Nat) (app : App) (done : Entries) (m : Maps)
    (fill : all.Fill done m) (ahead : all.Ahead done (app.entries domains publisher ca)) :
    all.Step (done ++ app.entries domains publisher ca) (app.Accepted domains publisher all.lives)
      (initApp domains publisher ca app m) := by
  unfold initApp
  split
  · rename_i unpublished
    exact .stop fill fun holds => holds.published unpublished
  rename_i published
  dsimp only
  rw [Maps.setConf_getD]
  have put := fill.conf ahead.left
  split
  · rename_i unplayed
    exact .stop put fun holds => holds.played unplayed
  rename_i played
  have lives := initLives_step (keyApp_ne_nil publisher app.appPublisher) app.appPlayer domains _ _ put ahead.right.left
  have relays := lives.andThen fun m fill =>
    initRelays_step (keyApp publisher app.appPublisher) app.relays _ m fill ahead.right.right
  refine ⟨relays.fill,relays.accepts.trans ?_,?_⟩
  · exact ⟨fun holds => ⟨published,played,holds.1,holds.2⟩,fun holds => ⟨holds.routed,holds.typed⟩⟩
  · have entries : done ++ app.entries domains publisher ca = done ++ ⟨[(keyApp publisher app.appPublisher,ca)],[],[],[]⟩ ++
        liveEntries (keyApp publisher app.appPublisher) app.appPlayer domains ++
        relayEntries (keyApp publisher app.appPublisher) app.relays := by
      simp only [App.entries,Entries.append_assoc]
    rw [entries]
    exact relays.filled

theorem initApps_step (domains : List Text) (publisher : Text) (ca : Nat) (apps : List App) (done : Entries) (m : Maps)
    (fill : all.Fill done m) (ahead : all.Ahead done (appsEntries domains publisher ca apps)) :
    all.Step (done ++ appsEntries domains publisher ca apps) (∀ app ∈ apps, app.Accepted domains publisher all.lives)
      (initApps domains publisher ca apps m) := by
  induction apps generalizing ca done m with
  | nil =>
    have same : done ++ appsEntries domains publisher ca [] = done := done.append_none
    rw [same]
    exact .accept fill fun app among => nomatch among
  | cons app apps ih =>
    rw [appsEntries_cons] at ahead ⊢
    rw [← Entries.append_assoc,List.forall_mem_cons]
    have first := initApp_step domains publisher ca app done m fill ahead.left
    exact first.andThen fun m fill => ih (ca + 1) _ m fill ahead.right

end Entries

section Listeners

variable (conf : ServerConf)

/-- What `init_conf_app` asks of a server block. -/
structure ServerConf.Consistent : Prop where
  players : conf.domains ≠ []
  publisher : conf.domainPublisher ≠ []
  apps : conf.apps ≠ []
  named : ∀ app ∈ conf.apps, app.appPublisher ≠ [] ∧ app.appPlayer ≠ []
  apart : ∀ app ∈ conf.apps, ∀ domain ∈ conf.domains, keyApp conf.domainPublisher app.appPublisher ≠ keyApp domain app.appPlayer
  lives : Functional conf.entries.lives
  typed : ∀ app ∈ conf.apps, ∀ cr ∈ app.relays, cr.type = ascii "pull" ∨ cr.type = ascii "push"

/-- The maps as the configuration alone says them. -/
def ServerConf.routing : Maps :=
  ⟨fun key => conf.entries.confs.lookup key,fun key => conf.entries.lives.lookup key,fun key => conf.entries.pulls.lookup key,
    fun key => conf.entries.pushes.lookup key⟩

/-- The maps after so many listeners of the block have run `init_conf_app`, whatever each of
them returned. -/
def ServerConf.mapsAfter : Nat → Maps
  | 0 => Maps.empty
  | listeners+1 => (conf.initConfApp (ServerConf.mapsAfter listeners)).1

theorem appsEntries_lives (domains : List Text) (publisher : Text) (ca : Nat) (apps : List App) :
    (appsEntries domains publisher ca apps).lives = apps.flatMap fun app =>
      domains.map fun domain => (keyApp domain app.appPlayer,keyApp publisher app.appPublisher) := by
  induction apps generalizing ca with
  | nil => rfl
  | cons app apps ih =>
    rw [appsEntries_cons,List.flatMap_cons,← ih (ca + 1)]
    change ([] ++ (domains.map _ ++ [])) ++ _ = _
    rw [List.nil_append,List.append_nil]

variable {conf}

theorem ServerConf.mem_lives {live uplive : Text} : (live,uplive) ∈ conf.entries.lives ↔
    ∃ app ∈ conf.apps, ∃ domain ∈ conf.domains, keyApp domain app.appPlayer = live ∧
      keyApp conf.domainPublisher app.appPublisher = uplive := by
  unfold ServerConf.entries
  rw [appsEntries_lives]
  simp only [List.mem_flatMap,List.mem_map,Prod.mk.injEq]

/-- The listener compares each name with the first entry it finds; together that says that
no player name means two streams. -/
theorem ServerConf.accepted_iff (players : conf.domains ≠ []) (publisher : conf.domainPublisher ≠ []) (apps : conf.apps ≠ []) :
    (∀ app ∈ conf.apps, app.Accepted conf.domains conf.domainPublisher conf.entries.lives) ↔ conf.Consistent := by
  constructor
  · intro accepted
    refine ⟨players,publisher,apps,?_,?_,?_,fun app among => (accepted app among).typed⟩
    · exact fun app among => ⟨(accepted app among).published,(accepted app among).played⟩
    · exact fun app among domain member => ((accepted app among).routed domain member).1
    · apply WriteOnce.functional_iff.mpr
      rintro ⟨live,uplive⟩ among
      obtain ⟨app,member,domain,named,rfl,rfl⟩ := mem_lives.mp among
      exact ((accepted app member).routed domain named).2
  · intro consistent app among
    refine ⟨(consistent.named app among).1,(consistent.named app among).2,?_,consistent.typed app among⟩
    intro domain named
    exact ⟨consistent.apart app among domain named,
      consistent.lives.lookup.mpr (mem_lives.mpr ⟨app,among,domain,named,rfl,rfl⟩)⟩

theorem ServerConf.initConfApp_step {m : Maps} (fill : conf.entries.Fill Entries.none m) :
    conf.entries.Step conf.entries conf.Consistent (conf.initConfApp m) := by
  unfold ServerConf.initConfApp
  split
  · rename_i none
    exact .stop fill fun holds => holds.players none
  rename_i players
  split
  · rename_i none
    exact .stop fill fun holds => holds.publisher none
  rename_i publisher
  split
  · rename_i none
    exact .stop fill fun holds => holds.apps none
  rename_i apps
  rw [← accepted_iff players publisher apps]
  exact initApps_step conf.domains conf.domainPublisher 0 conf.apps Entries.none m fill ⟨Entries.none,(Entries.append_none _).symm⟩

theorem ServerConf.mapsAfter_fill (listeners : Nat) : conf.entries.Fill Entries.none (conf.mapsAfter listeners) := by
  induction listeners with
  | zero =>
    have empty {Value : Type} (entries : List (Text × Value)) : Filled entries [] (fun _ => none) := by
      refine ⟨?_,?_⟩
      · intro key value present
        cases present
      · intro entry among
        cases among
    exact ⟨empty _,empty _,empty _,empty _⟩
  | succ listeners ih => exact (initConfApp_step ih).fill

theorem Entries.Fill.full {m : Maps} (fill : conf.entries.Fill conf.entries m) : m = conf.routing := by
  cases m
  exact congr (congr (congr (congrArg Maps.mk fill.confs.full) fill.lives.full) fill.pulls.full) fill.pushes.full

theorem ServerConf.initConfApp_accepts (conf : ServerConf) (listeners : Nat) :
    (conf.initConfApp (conf.mapsAfter listeners)).2 = true ↔ conf.Consistent :=
  (initConfApp_step (conf.mapsAfter_fill listeners)).accepts

theorem ServerConf.initConfApp_routing (consistent : conf.Consistent) (listeners : Nat) :
    (conf.initConfApp (conf.mapsAfter listeners)).1 = conf.routing :=
  ((initConfApp_step (conf.mapsAfter_fill listeners)).filled ((conf.initConfApp_accepts listeners).mpr consistent)).full

/-- All listeners of a block decide alike, and every one that is accepted leaves the same
maps, however many ran before it and whether or not these were accepted. -/
theorem listeners_agree (conf : ServerConf) (listeners : Nat) :
    ((conf.initConfApp (conf.mapsAfter listeners)).2 = true ↔ conf.Consistent) ∧
      (conf.Consistent → (conf.initConfApp (conf.mapsAfter listeners)).1 = conf.routing) :=
  ⟨conf.initConfApp_accepts listeners,fun consistent => ServerConf.initConfApp_routing consistent listeners⟩

theorem listeners_agree_second :
    let conf : ServerConf := ⟨ascii "edge watch",ascii "studio",[⟨ascii "in",ascii "out",[⟨ascii "push",[],ascii "a:1 b:1",5,0⟩]⟩]⟩
    (conf.initConfApp (conf.mapsAfter 1)).1 = conf.routing := by
  intro conf
  exact (listeners_agree conf 1).2 ((listeners_agree conf 1).1.mp (by decide))

end Listeners

end SrtLiveServer.AppRouting
