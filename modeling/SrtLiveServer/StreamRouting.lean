import SrtLiveServer.AppRouting

/-! Which stream a connection is for. The listener finds the publishing app of a player in
the tables, and takes everyone who is not at a player address for a publisher. Both then
name the stream by that app. -/
namespace SrtLiveServer.StreamRouting
open Bytes StreamId PlayerKeyGate PlayerAccept AppRouting

inductive Attachment where
  | refused
  | player (key : Text)
  /-- The publisher is held to the rules of the app block at position `ca`. -/
  | publisher (ca : Nat) (key : Text)
deriving DecidableEq

/-- `handler` from the parsed streamid on, for a connection that needs no player key. -/
def attach (m : Maps) (gate : PlayerKeyGate.Listener) (r : Route) : Attachment :=
  let appUplive := m.getUplive (keyApp r.host r.app)
  if !gate.allows appUplive then .refused
  else if appUplive.isEmpty then
    match m.uplive2Conf (keyApp r.host r.app) with
    | none => .refused
    | some ca => .publisher ca (strlcpy (keyApp (keyApp r.host r.app) r.stream) urlMaxLen)
  else .player (strlcpy (keyApp appUplive r.stream) urlMaxLen)

section Handler

variable {m : Maps} {l : ListenerSockets.Listener} {s : ListenerSockets.State} {srt : Nat} {env : ListenerSockets.Encounter}
  {sid : Text} {r : Route}

/-- The player table as the gate of the listener has it is the one all listeners share. -/
theorem server_uplive {conf : ServerConf} {server : Server} (domains : server.domainPlayers = conf.domains)
    (publisher : server.domainPublisher = conf.domainPublisher)
    (apps : server.apps = conf.apps.map fun app => (app.appPlayer,app.appPublisher)) :
    server.getUplive = conf.routing.getUplive := by
  have entries : server.liveToUplive = conf.entries.lives := by
    rw [Server.liveToUplive,domains,publisher,apps,List.flatMap_map]
    exact (appsEntries_lives conf.domains conf.domainPublisher 0 conf.apps).symm
  funext key
  rw [Server.getUplive,entries]
  rfl

/-- The whole `handler`, with the tables it shares, does not get further than `attach`. -/
theorem handler_attach (uplive : l.gate.server.getUplive = m.getUplive)
    (configured : env.publisher.configured = fun key => (m.uplive2Conf key).isSome) (read : env.streamid = some sid)
    (routed : route sid = some r) (undetected : l.gate.server.requiredKey sid = none) :
    l.handler s srt env = s.close srt ∨
      (∃ args, attach m l.gate r = .player args.keyStreamName ∧ l.handler s srt env = s.finishPlayerAccept args env.player) ∨
      ∃ ca key, attach m l.gate r = .publisher ca key ∧ key = strlcpy (keyApp (keyApp r.host r.app) r.stream) urlMaxLen ∧
        ∃ peer, l.handler s srt env = l.acceptPublisher s srt (keyApp r.host r.app) r.stream sid peer env := by
  unfold ListenerSockets.Listener.handler
  cases env.peer with
  | none => exact .inl rfl
  | some peer =>
  dsimp only
  split
  · exact .inl rfl
  cases l.finalLatency env.latency with
  | none => exact .inl rfl
  | some latency =>
  rw [read]
  dsimp only
  split
  · exact .inl rfl
  rw [routed,undetected,uplive]
  dsimp only
  split
  · exact .inl rfl
  rename_i allowed
  split
  · exact .inl rfl
  cases taken : (m.getUplive (keyApp r.host r.app)).isEmpty with
  | false =>
    refine .inr (.inl ⟨_,?_,rfl⟩)
    unfold attach
    rw [if_neg allowed,if_neg (Bool.eq_false_iff.mp taken)]
    rfl
  | true =>
    cases block : m.uplive2Conf (keyApp r.host r.app) with
    | none =>
      left
      have missing : (!env.publisher.configured (keyApp r.host r.app)) = true := by
        rw [configured]
        dsimp only
        rw [block]
        rfl
      change l.acceptPublisher s srt (keyApp r.host r.app) r.stream sid peer env = _
      unfold ListenerSockets.Listener.acceptPublisher
      dsimp only
      rw [if_pos missing]
    | some ca =>
      refine .inr (.inr ⟨ca,_,?_,rfl,peer,rfl⟩)
      unfold attach
      rw [if_neg allowed,if_pos taken,block]

end Handler

section Addresses

theorem keyApp_eq (front back : Text) : keyApp front back = front ++ byte '/'::back :=
  List.append_assoc front (ascii "/") back

theorem keyApp_inj {host app domain live : Text} (bareHost : byte '/' ∉ host) (bareApp : byte '/' ∉ app)
    (same : keyApp host app = keyApp domain live) : host = domain ∧ app = live := by
  rw [keyApp_eq,keyApp_eq] at same
  have slashes := congrArg (List.count (byte '/')) same
  rw [List.count_append,List.count_append,List.count_cons_self,List.count_cons_self,List.count_eq_zero_of_not_mem bareHost,
    List.count_eq_zero_of_not_mem bareApp] at slashes
  have bareLive : byte '/' ∉ live := List.count_eq_zero.mp (by omega)
  exact last_slash same bareApp bareLive

theorem keyApp_app (host one other : Text) : keyApp host one = keyApp host other ↔ one = other :=
  List.append_right_inj (host ++ ascii "/")

theorem strlcpy_inj {text short : Text} {size : Nat} (fits : short.length + 1 < size) (same : strlcpy text size = short) :
    text = short := by
  have sized := congrArg List.length same
  rw [strlcpy,List.length_take] at sized
  have whole : text.length ≤ size - 1 := by omega
  rwa [strlcpy,List.take_of_length_le whole] at same

variable {conf : ServerConf} {r : Route}

/-- The connection is at a player address of the app block. -/
structure Watches (conf : ServerConf) (r : Route) (app : App) : Prop where
  listed : app ∈ conf.apps
  host : r.host ∈ conf.domains
  app : r.app = app.appPlayer

theorem routing_uplive (consistent : conf.Consistent) (r : Route) (uplive : Text) :
    conf.routing.live2Uplive (keyApp r.host r.app) = some uplive ↔
      ∃ app, Watches conf r app ∧ keyApp conf.domainPublisher app.appPublisher = uplive := by
  refine consistent.lives.lookup.trans (ServerConf.mem_lives.trans ⟨?_,?_⟩)
  · rintro ⟨app,listed,domain,named,address,same⟩
    obtain ⟨host,live⟩ := keyApp_inj (safeName_slash r.safe.1) (safeName_slash r.safe.2.1) address.symm
    exact ⟨app,⟨listed,host ▸ named,live⟩,same⟩
  · rintro ⟨app,watches,same⟩
    exact ⟨app,watches.listed,r.host,watches.host,congrArg (keyApp r.host) watches.app.symm,same⟩

theorem Watches.unique (consistent : conf.Consistent) {app other : App} (watches : Watches conf r app) (its : Watches conf r other) :
    app.appPublisher = other.appPublisher := by
  have first := (routing_uplive consistent r _).mpr ⟨app,watches,rfl⟩
  rw [(routing_uplive consistent r _).mpr ⟨other,its,rfl⟩] at first
  exact ((keyApp_app _ _ _).mp (Option.some.inj first)).symm

theorem appsEntries_confs (domains : List Text) (publisher name : Text) (ca : Nat) (apps : List App) :
    (appsEntries domains publisher ca apps).confs.lookup (keyApp publisher name) =
      (apps.findIdx? fun app => app.appPublisher == name).map (ca + ·) := by
  induction apps generalizing ca with
  | nil => rfl
  | cons app apps ih =>
    rw [appsEntries_cons,List.findIdx?_cons]
    change ((keyApp publisher app.appPublisher,ca)::(appsEntries domains publisher (ca + 1) apps).confs).lookup _ = _
    rw [List.lookup_cons]
    by_cases same : app.appPublisher = name
    · subst same
      rw [beq_self_eq_true,beq_self_eq_true]
      rfl
    · have apart : keyApp publisher name ≠ keyApp publisher app.appPublisher := fun equal => same ((keyApp_app _ _ _).mp equal.symm)
      rw [beq_false_of_ne same,beq_false_of_ne apart]
      dsimp only
      rw [ih,if_neg Bool.false_ne_true,Option.map_map]
      apply congrArg (Option.map · _)
      funext at_
      exact (Nat.add_right_comm ca 1 at_).trans (Nat.add_assoc ca at_ 1)

theorem appsEntries_host (domains : List Text) (publisher : Text) (ca : Nat) (apps : List App) (r : Route) (found : Nat)
    (taken : (appsEntries domains publisher ca apps).confs.lookup (keyApp r.host r.app) = some found) : r.host = publisher := by
  induction apps generalizing ca with
  | nil => cases taken
  | cons app apps ih =>
    rw [appsEntries_cons] at taken
    change ((keyApp publisher app.appPublisher,ca)::(appsEntries domains publisher (ca + 1) apps).confs).lookup _ = _ at taken
    rw [List.lookup_cons] at taken
    split at taken
    · rename_i equal
      exact (keyApp_inj (safeName_slash r.safe.1) (safeName_slash r.safe.2.1) (eq_of_beq equal)).1
    · exact ih (ca + 1) taken

theorem routing_block (conf : ServerConf) (r : Route) (ca : Nat) : conf.routing.uplive2Conf (keyApp r.host r.app) = some ca ↔
    r.host = conf.domainPublisher ∧ (conf.apps.findIdx? fun app => app.appPublisher == r.app) = some ca := by
  have block (host : r.host = conf.domainPublisher) : conf.routing.uplive2Conf (keyApp r.host r.app) =
      conf.apps.findIdx? fun app => app.appPublisher == r.app := by
    rw [host]
    refine (appsEntries_confs conf.domains conf.domainPublisher r.app 0 conf.apps).trans ?_
    simp only [Nat.zero_add,Option.map_id']
  constructor
  · intro found
    have host := appsEntries_host _ _ _ _ r ca found
    exact ⟨host,block host ▸ found⟩
  · rintro ⟨host,found⟩
    exact (block host).trans found

end Addresses

section Meeting

variable {conf : ServerConf} {gate : PlayerKeyGate.Listener} {r : Route} {key : Text} {ca : Nat}

theorem allows_player (gate : PlayerKeyGate.Listener) {uplive : Text} (named : uplive ≠ []) :
    gate.allows uplive = true ↔ gate.isLegacyListener = true ∨ gate.isPublisherListener = false := by
  rw [PlayerKeyGate.Listener.allows,List.isEmpty_eq_false_iff.mpr named,Bool.or_eq_true,beq_iff_eq]

theorem allows_publisher (gate : PlayerKeyGate.Listener) :
    gate.allows [] = true ↔ gate.isLegacyListener = true ∨ gate.isPublisherListener = true := by
  rw [PlayerKeyGate.Listener.allows,List.isEmpty_nil,Bool.or_eq_true,beq_iff_eq]

theorem attach_watched (consistent : conf.Consistent) {app : App} (watches : Watches conf r app) :
    attach conf.routing gate r = if gate.isLegacyListener = true ∨ gate.isPublisherListener = false then
      .player (strlcpy (streamKey conf.domainPublisher app.appPublisher r.stream) urlMaxLen) else .refused := by
  have named := keyApp_ne_nil conf.domainPublisher app.appPublisher
  have uplive : conf.routing.getUplive (keyApp r.host r.app) = keyApp conf.domainPublisher app.appPublisher := by
    rw [Maps.getUplive,(routing_uplive consistent r _).mpr ⟨app,watches,rfl⟩]
    rfl
  unfold attach
  rw [uplive]
  dsimp only
  rw [List.isEmpty_eq_false_iff.mpr named]
  by_cases kind : gate.isLegacyListener = true ∨ gate.isPublisherListener = false
  · rw [(allows_player gate named).mpr kind,if_pos kind]
    rfl
  · rw [Bool.eq_false_iff.mpr fun allowed => kind ((allows_player gate named).mp allowed),if_neg kind]
    rfl

theorem attach_unwatched (consistent : conf.Consistent) (nobody : ¬ ∃ app, Watches conf r app) :
    attach conf.routing gate r = if gate.isLegacyListener = true ∨ gate.isPublisherListener = true then
      (conf.routing.uplive2Conf (keyApp r.host r.app)).elim .refused
        fun ca => .publisher ca (strlcpy (streamKey r.host r.app r.stream) urlMaxLen)
      else .refused := by
  have missing : conf.routing.live2Uplive (keyApp r.host r.app) = none := by
    apply Option.eq_none_iff_forall_ne_some.mpr
    intro uplive found
    exact nobody (((routing_uplive consistent r uplive).mp found).imp fun _ => And.left)
  have uplive : conf.routing.getUplive (keyApp r.host r.app) = [] := by
    rw [Maps.getUplive,missing]
    rfl
  unfold attach
  rw [uplive]
  dsimp only
  by_cases kind : gate.isLegacyListener = true ∨ gate.isPublisherListener = true
  · rw [(allows_publisher gate).mpr kind,if_pos kind]
    cases conf.routing.uplive2Conf (keyApp r.host r.app) with
    | none => rfl
    | some ca => rfl
  · rw [Bool.eq_false_iff.mpr fun allowed => kind ((allows_publisher gate).mp allowed),if_neg kind]
    rfl

theorem attach_player (consistent : conf.Consistent) : attach conf.routing gate r = .player key ↔
    (gate.isLegacyListener = true ∨ gate.isPublisherListener = false) ∧
      ∃ app, Watches conf r app ∧ strlcpy (streamKey conf.domainPublisher app.appPublisher r.stream) urlMaxLen = key := by
  by_cases watched : ∃ app, Watches conf r app
  · obtain ⟨app,watches⟩ := watched
    rw [attach_watched consistent watches]
    split
    · rename_i kind
      rw [Attachment.player.injEq]
      refine ⟨fun same => ⟨kind,app,watches,same⟩,?_⟩
      rintro ⟨_,other,its,same⟩
      rw [watches.unique consistent its]
      exact same
    · rename_i kind
      exact iff_of_false Attachment.noConfusion fun player => kind player.1
  · refine iff_of_false ?_ fun player => watched (player.2.imp fun _ => And.left)
    rw [attach_unwatched consistent watched]
    split
    · cases conf.routing.uplive2Conf (keyApp r.host r.app) with
      | none => exact Attachment.noConfusion
      | some ca => exact Attachment.noConfusion
    · exact Attachment.noConfusion

theorem attach_publisher (consistent : conf.Consistent) : attach conf.routing gate r = .publisher ca key ↔
    (gate.isLegacyListener = true ∨ gate.isPublisherListener = true) ∧ (¬ ∃ app, Watches conf r app) ∧
      r.host = conf.domainPublisher ∧ (conf.apps.findIdx? fun app => app.appPublisher == r.app) = some ca ∧
      strlcpy (streamKey r.host r.app r.stream) urlMaxLen = key := by
  by_cases watched : ∃ app, Watches conf r app
  · refine iff_of_false ?_ fun publisher => publisher.2.1 watched
    obtain ⟨app,watches⟩ := watched
    rw [attach_watched consistent watches]
    split
    · exact Attachment.noConfusion
    · exact Attachment.noConfusion
  · rw [attach_unwatched consistent watched]
    split
    · rename_i kind
      rw [and_iff_right kind,and_iff_right watched,← and_assoc,← routing_block conf r ca]
      cases conf.routing.uplive2Conf (keyApp r.host r.app) with
      | none => exact iff_of_false Attachment.noConfusion fun publisher => nomatch publisher.1
      | some block => rw [Option.elim_some,Attachment.publisher.injEq,Option.some.injEq]
    · rename_i kind
      exact iff_of_false Attachment.noConfusion fun publisher => kind publisher.1

/-- A player reads the stream of a publisher exactly if both are at the addresses of one app
block and name the same stream, and the address of the publisher is not the player address
of another block. -/
theorem player_meets_publisher_iff (conf : ServerConf) (listeners : Nat)
    (accepted : (conf.initConfApp (conf.mapsAfter listeners)).2 = true) (playerPort publisherPort : PlayerKeyGate.Listener)
    (player publisher : Route) (ca : Nat) (fits : (streamKey publisher.host publisher.app publisher.stream).length + 1 < urlMaxLen) :
    (∃ key, attach (conf.initConfApp (conf.mapsAfter listeners)).1 playerPort player = .player key ∧
      attach (conf.initConfApp (conf.mapsAfter listeners)).1 publisherPort publisher = .publisher ca key) ↔
      (playerPort.isLegacyListener = true ∨ playerPort.isPublisherListener = false) ∧
      (publisherPort.isLegacyListener = true ∨ publisherPort.isPublisherListener = true) ∧
      (¬ ∃ app, Watches conf publisher app) ∧ publisher.host = conf.domainPublisher ∧
      (conf.apps.findIdx? fun app => app.appPublisher == publisher.app) = some ca ∧
      (∃ app, Watches conf player app ∧ app.appPublisher = publisher.app) ∧ player.stream = publisher.stream := by
  have consistent := (conf.initConfApp_accepts listeners).mp accepted
  rw [ServerConf.initConfApp_routing consistent listeners]
  simp only [attach_player consistent,attach_publisher consistent]
  constructor
  · rintro ⟨key,⟨playerTaken,app,watches,read⟩,publisherTaken,apart,host,block,written⟩
    have whole : strlcpy (streamKey publisher.host publisher.app publisher.stream) urlMaxLen =
        streamKey publisher.host publisher.app publisher.stream := strlcpy_short (Nat.lt_of_succ_lt fits)
    have same := strlcpy_inj fits (read.trans (written.symm.trans whole))
    rw [streamKey,streamKey,host,keyApp_eq (keyApp _ _),keyApp_eq (keyApp _ _)] at same
    obtain ⟨uplive,stream⟩ := last_slash same (safeName_slash player.safe.2.2) (safeName_slash publisher.safe.2.2)
    exact ⟨playerTaken,publisherTaken,apart,host,block,⟨app,watches,(keyApp_app _ _ _).mp uplive⟩,stream⟩
  · rintro ⟨playerTaken,publisherTaken,apart,host,block,⟨app,watches,same⟩,stream⟩
    refine ⟨_,⟨playerTaken,app,watches,rfl⟩,publisherTaken,apart,host,block,?_⟩
    rw [host,same,stream]

theorem player_meets_publisher_iff_second_listener :
    let conf : ServerConf := ⟨ascii "edge watch",ascii "studio",[⟨ascii "in",ascii "out",[⟨ascii "push",[],ascii "a:1 b:1",5,0⟩]⟩]⟩
    let player : Route := ⟨ascii "watch",ascii "out",ascii "cam",by decide⟩
    let publisher : Route := ⟨ascii "studio",ascii "in",ascii "cam",by decide⟩
    ∃ key, attach (conf.initConfApp (conf.mapsAfter 1)).1 ⟨⟨[],[],[],[],0,0,0,false⟩,false,false⟩ player = .player key ∧
      attach (conf.initConfApp (conf.mapsAfter 1)).1 ⟨⟨[],[],[],[],0,0,0,false⟩,true,false⟩ publisher = .publisher 0 key := by
  intro conf player publisher
  have apart : ¬ ∃ app, Watches conf publisher app := by
    rintro ⟨app,watches⟩
    exact absurd watches.host (by decide)
  have app : Watches conf player ⟨ascii "in",ascii "out",[⟨ascii "push",[],ascii "a:1 b:1",5,0⟩]⟩ :=
    ⟨List.mem_cons_self,by decide,rfl⟩
  exact (player_meets_publisher_iff conf 1 (by decide) _ _ player publisher 0 (by decide)).mpr
    ⟨.inr rfl,.inr rfl,apart,rfl,by decide,⟨_,app,rfl⟩,rfl⟩

end Meeting

end SrtLiveServer.StreamRouting
