import SrtLiveServer.PlayerKeyGate

/-! Admission of a player whose key was resolved to a stream: what `handler` does
in the same call, what `drive_pending_player_connections` does for a connection it
held, and the stream `finish_player_accept` attaches the player to. -/
namespace SrtLiveServer.PlayerAccept
open Bytes StreamId PlayerKeyGate

/-- What `handler` has about a connection once its key is known. -/
structure Held where
  srt : Nat
  appUplive : Text
  playerKey : Text
  peerName : Text
  peerPort : Int
  finalLatency : Int
  sessionId : Text
  curTime : Text
deriving DecidableEq

structure Args where
  srt : Nat
  appUplive : Text
  streamName : Text
  effectiveSid : Text
  playerKey : Text
  playerKeyValidationRequired : Bool
  peerName : Text
  peerPort : Int
  finalLatency : Int
  sessionId : Text
  curTime : Text
deriving DecidableEq

inductive Outcome where
  | reject
  | finish (args : Args)
  /-- On to the publisher side of `handler`. -/
  | publisher (keyApp streamName sid : Text)
deriving DecidableEq

def Held.finish (c : Held) (streamName effectiveSid : Text) : Outcome :=
  .finish ⟨c.srt,c.appUplive,streamName,effectiveSid,c.playerKey,true,c.peerName,c.peerPort,c.finalLatency,
    c.sessionId,c.curTime⟩

/-- `handler` after `validate_player_key` returned `SLS_OK`. -/
def Held.handler (c : Held) (resolvedStreamId : Text) : Outcome :=
  let sid := strlcpy (strlcpy (cStr resolvedStreamId) urlMaxLen) sidSize
  match route sid with
  | none => .reject
  | some r =>
    if urlMaxLen ≤ (keyApp r.host r.app).length then .reject
    else if c.appUplive.isEmpty then .publisher (keyApp r.host r.app) r.stream sid
    else c.finish r.stream sid

/-- `drive_pending_player_connections` on an unexpired valid entry. -/
def Held.drivePending (c : Held) (resolvedStreamId : Text) : Outcome :=
  match route (strlcpy (cStr resolvedStreamId) sidSize) with
  | none => .reject
  | some r => c.finish r.stream resolvedStreamId

/-- What `finish_player_accept` meets, in the order it asks. -/
structure Surroundings where
  published : Text → Bool
  /-- `m_map_puller` is set, has a manager for the stream, and that manager started. -/
  pulls : Bool
  publishedAfterPull : Text → Bool
  configured : Text → Bool
  aclAccepts : Bool
  stillPublished : Text → Bool
  full : Bool

structure Player where
  mapDataKey : Text
  streamid : Text
  url : Text
deriving DecidableEq

def Args.keyStreamName (args : Args) : Text := strlcpy (keyApp args.appUplive args.streamName) urlMaxLen

/-- `none` where the connection is refused. -/
def Args.finishPlayerAccept (args : Args) (around : Surroundings) : Option Player :=
  let key := args.keyStreamName
  if !around.published key && !(around.pulls && around.publishedAfterPull key) then none
  else if !around.configured args.appUplive then none
  else if !around.aclAccepts then none
  else if !around.stillPublished key then none
  else if around.full then none
  else some ⟨key,cStr args.effectiveSid,args.effectiveSid⟩

def Outcome.event (conn : Connection) : Outcome → Event
  | .reject => .closed conn
  | .finish args => .finishPlayerAccept conn args.appUplive args.streamName args.playerKey args.playerKeyValidationRequired
  | .publisher _ streamName _ => .publisherAccept conn streamName

theorem validateAndAccept_handler (server : Server) (s : State) (conn : Connection) (c : Held) (env : Env)
    (entry : CacheEntry) (online : server.offlineCached s.cache c.playerKey env = false)
    (validated : server.validatePlayerKey s.cache c.playerKey env.limited env.now =
      (s.cache,.ok (strlcpy (cStr entry.resolvedStreamId) urlMaxLen))) :
    (server.validateAndAccept s conn c.appUplive c.playerKey env).log =
      s.log ++ [.validated conn c.playerKey,(c.handler entry.resolvedStreamId).event conn] := by
  unfold Server.validateAndAccept Held.handler
  rw [online,validated]
  simp only [Bool.false_eq_true,if_false]
  cases route (strlcpy (strlcpy (cStr entry.resolvedStreamId) urlMaxLen) sidSize) with
  | none => simp [State.emit,Outcome.event]
  | some r =>
    dsimp only
    split
    · simp [State.emit,Outcome.event]
    · unfold State.accept
      split <;> simp [State.emit,Outcome.event,Held.finish]

theorem driveOne_drivePending (now : Int) (s : State) (conn : Connection) (c : Held) (deadline : Int) (entry : CacheEntry)
    (cached : s.cache c.playerKey = some entry) (unexpired : now < entry.expiryTime) (valid : entry.isValid = true) :
    (s.driveOne now ⟨conn,c.appUplive,c.playerKey,deadline⟩).log =
      s.log ++ [.foundValid conn c.playerKey,(c.drivePending entry.resolvedStreamId).event conn] := by
  unfold State.driveOne Held.drivePending
  simp only [cached,Option.filter_some,decide_eq_true unexpired,if_true,valid]
  cases route (strlcpy (cStr entry.resolvedStreamId) sidSize) with
  | none => simp [State.emit,Outcome.event]
  | some r => simp [State.emit,Outcome.event,Held.finish]

/-- For an identifier that fits the streamid buffer, the two admissions agree
exactly if both refuse it, or the connection has a publish app and the identifier
no NUL byte. -/
theorem admissions_agree_iff (c : Held) (resolvedStreamId : Text) (short : resolvedStreamId.length < sidSize) :
    c.handler resolvedStreamId = c.drivePending resolvedStreamId ↔
      route (cStr resolvedStreamId) = none ∨ c.appUplive ≠ [] ∧ (0 : UInt8) ∉ resolvedStreamId := by
  have fits : (cStr resolvedStreamId).length < sidSize := Nat.lt_of_le_of_lt (cStr_length _) short
  have wide : (cStr resolvedStreamId).length < urlMaxLen := Nat.lt_trans fits (by decide)
  unfold Held.handler Held.drivePending
  dsimp only
  rw [strlcpy_short wide,strlcpy_short fits]
  cases routed : route (cStr resolvedStreamId) with
  | none => simp
  | some r =>
    obtain ⟨hostFits,appFits⟩ := route_length routed
    have keyFits : ¬ urlMaxLen ≤ (keyApp r.host r.app).length := by
      have size : sidSize = 1024 := rfl
      have url : urlMaxLen = 2048 := rfl
      have slash : (ascii "/").length = 1 := rfl
      simp only [keyApp,List.length_append,slash]
      omega
    dsimp only
    rw [if_neg keyFits,← cStr_eq_iff]
    cases uplive : c.appUplive with
    | nil => simp [Held.finish]
    | cons b rest => simp [Held.finish]

def viewer : Held := ⟨7,ascii "publish/live",ascii "key12345",ascii "10.0.0.1",5000,120,ascii "s",ascii "t"⟩

theorem admissions_agree_iff_plain :
    viewer.handler (ascii "publish/live/cam") = viewer.drivePending (ascii "publish/live/cam") :=
  (admissions_agree_iff viewer (ascii "publish/live/cam") (by decide)).mpr (Or.inr (by decide))

/-- A JSON string may carry a NUL; the deferred path hands all of it on. -/
theorem nul_in_resolved_id_kept_by_deferred :
    (ascii "publish/live/cam" ++ 0::ascii "x").length < sidSize ∧
      viewer.handler (ascii "publish/live/cam" ++ 0::ascii "x") ≠
        viewer.drivePending (ascii "publish/live/cam" ++ 0::ascii "x") := by
  decide

/-- The connection as `handler` builds it from the streamid the client sent. -/
def Server.held (server : Server) (client : Route) (c : Held) : Held :=
  {c with appUplive := server.getUplive (keyApp client.host client.app)}

/-- Whenever the connection is admitted for the resolved identifier, on either
path, its player reads the ring of `key`. -/
def Held.AttachedTo (c : Held) (resolvedStreamId key : Text) : Prop :=
  ∀ outcome ∈ [c.handler resolvedStreamId,c.drivePending resolvedStreamId], ∀ args around player,
    outcome = .finish args → args.finishPlayerAccept around = some player → player.mapDataKey = key

def streamKey (host app stream : Text) : Text := keyApp (keyApp host app) stream

theorem streamKey_eq (host app stream : Text) :
    streamKey host app stream = host ++ byte '/'::(app ++ byte '/'::stream) := by
  simp [streamKey,keyApp,ascii]

structure Named (host app stream : Text) : Prop where
  host : slsIsSafeName host = true
  app : slsIsSafeName app = true
  stream : slsIsSafeName stream = true

section Named

variable {host app stream : Text} (named : Named host app stream)
include named

theorem Named.safe : slsIsSafeName host = true ∧ slsIsSafeName app = true ∧ slsIsSafeName stream = true :=
  ⟨named.host,named.app,named.stream⟩

theorem Named.excludes {b : UInt8} (other : b ≠ byte '/') (shunned : isSafeByte b = false) :
    b ∉ streamKey host app stream := by
  rw [streamKey_eq]
  exact joined_excludes named.safe other shunned

theorem Named.cStr : cStr (streamKey host app stream) = streamKey host app stream :=
  (cStr_eq_iff _).mpr (named.excludes (by decide) (by decide))

/-- An identifier cut after `n` bytes is still routed only if both slashes are
left, and then to what is left of its stream. -/
theorem Named.route_take {n : Nat} {r : Route} (routed : route ((streamKey host app stream).take n) = some r) :
    host.length + app.length + 2 ≤ n ∧ r.stream = stream.take (n - (host.length + app.length + 2)) := by
  have plain : byte '#' ∉ (streamKey host app stream).take n :=
    fun member => named.excludes (by decide) (by decide) (List.mem_of_mem_take member)
  have hostSlash := safeName_slash named.host
  have appSlash := safeName_slash named.app
  rw [streamKey_eq] at routed plain
  rcases Nat.lt_or_ge n (host.length + 1) with short | withHost
  · have cut : (host ++ byte '/'::(app ++ byte '/'::stream)).take n = host.take n :=
      List.take_append_of_le_length (Nat.le_of_lt_succ short)
    rw [cut] at routed plain
    have split : slsSplitString (host.take n) (byte '/') = [host.take n] :=
      List.splitOn_eq_singleton fun member => hostSlash (List.mem_of_mem_take member)
    rw [route_few plain split (by simp)] at routed
    cases routed
  obtain ⟨m,rfl⟩ := Nat.exists_eq_add_of_le withHost
  have first : (host ++ byte '/'::(app ++ byte '/'::stream)).take (host.length + 1 + m) =
      host ++ byte '/'::(app ++ byte '/'::stream).take m := by
    rw [Nat.add_assoc,List.take_length_add_append,Nat.add_comm 1 m,List.take_succ_cons]
  rw [first] at routed plain
  rcases Nat.lt_or_ge m (app.length + 1) with short | withApp
  · have cut : (app ++ byte '/'::stream).take m = app.take m :=
      List.take_append_of_le_length (Nat.le_of_lt_succ short)
    rw [cut] at routed plain
    have split : slsSplitString (host ++ byte '/'::app.take m) (byte '/') = [host,app.take m] := by
      rw [slsSplitString,List.splitOn_append_cons_self_of_not_mem hostSlash,
        List.splitOn_eq_singleton fun member => appSlash (List.mem_of_mem_take member)]
    rw [route_few plain split (by simp)] at routed
    cases routed
  obtain ⟨k,rfl⟩ := Nat.exists_eq_add_of_le withApp
  have second : (app ++ byte '/'::stream).take (app.length + 1 + k) = app ++ byte '/'::stream.take k := by
    rw [Nat.add_assoc,List.take_length_add_append,Nat.add_comm 1 k,List.take_succ_cons]
  rw [second] at routed plain
  have split : slsSplitString (host ++ byte '/'::(app ++ byte '/'::stream.take k)) (byte '/') =
      [host,app,stream.take k] := by
    rw [slsSplitString,List.splitOn_append_cons_self_of_not_mem hostSlash,
      List.splitOn_append_cons_self_of_not_mem appSlash,
      List.splitOn_eq_singleton fun member => safeName_slash named.stream (List.mem_of_mem_take member)]
  have trimmed : slsTrim (stream.take k) = stream.take k :=
    slsTrim_safe fun b member => safeName_all named.stream b (List.mem_of_mem_take member)
  rw [route_pieces plain split ⟨slsTrim_safe (safeName_all named.host),slsTrim_safe (safeName_all named.app),trimmed⟩]
    at routed
  split at routed
  · cases routed
    have left : host.length + 1 + (app.length + 1 + k) - (host.length + app.length + 2) = k := by omega
    refine ⟨by omega,?_⟩
    rw [left]
  · cases routed

theorem Named.route : route (streamKey host app stream) = some ⟨host,app,stream,named.host,named.app,named.stream⟩ := by
  rw [streamKey_eq]
  exact route_joined named.safe

end Named

theorem last_slash {front other back after : Text} (joined : front ++ byte '/'::back = other ++ byte '/'::after)
    (bare : byte '/' ∉ back) (single : byte '/' ∉ after) : front = other ∧ back = after := by
  have reversed := congrArg List.reverse joined
  simp only [List.reverse_append,List.reverse_cons,List.append_assoc,List.singleton_append] at reversed
  have cut := congrArg (List.splitOn (byte '/')) reversed
  rw [List.splitOn_append_cons_self_of_not_mem (by simpa using bare),
    List.splitOn_append_cons_self_of_not_mem (by simpa using single)] at cut
  have backs : back = after := List.reverse_injective (List.cons.inj cut).1
  subst backs
  exact ⟨List.append_cancel_right joined,rfl⟩

theorem Args.finishPlayerAccept_key {args : Args} {around : Surroundings} {player : Player}
    (admitted : args.finishPlayerAccept around = some player) : player.mapDataKey = args.keyStreamName := by
  unfold Args.finishPlayerAccept at admitted
  dsimp only at admitted
  repeat' split at admitted
  all_goals cases admitted
  rfl

theorem Held.finish_args {c : Held} {id : Text} (fits : id.length < urlMaxLen) (plain : cStr id = id) {outcome : Outcome}
    (path : outcome ∈ [c.handler id,c.drivePending id]) {args : Args} (finishes : outcome = .finish args) :
    args.appUplive = c.appUplive ∧ ∃ r, route (strlcpy id sidSize) = some r ∧ args.streamName = r.stream := by
  simp only [List.mem_cons,List.not_mem_nil,or_false] at path
  rcases path with rfl | rfl
  · unfold Held.handler at finishes
    dsimp only at finishes
    rw [plain,strlcpy_short fits] at finishes
    split at finishes
    · cases finishes
    · rename_i r routed
      split at finishes
      · cases finishes
      split at finishes
      · cases finishes
      cases finishes
      exact ⟨rfl,r,routed,rfl⟩
  · unfold Held.drivePending at finishes
    rw [plain] at finishes
    split at finishes
    · cases finishes
    · rename_i r routed
      cases finishes
      exact ⟨rfl,r,routed,rfl⟩

/-- How a key built from `uplive` can spell the identifier: from its own app and
stream, or because `uplive` alone fills the buffer with it. -/
theorem Named.key_eq {host app stream uplive name : Text} (named : Named host app stream) (bare : byte '/' ∉ name)
    (part : name.length ≤ stream.length) (fits : (streamKey host app stream).length < urlMaxLen)
    (same : strlcpy (keyApp uplive name) urlMaxLen = streamKey host app stream) :
    (uplive = keyApp host app ∧ name = stream) ∨
      ((streamKey host app stream).length + 1 = urlMaxLen ∧ uplive.take (urlMaxLen - 1) = streamKey host app stream) := by
  have whole : keyApp uplive name = uplive ++ byte '/'::name := by simp [keyApp,ascii]
  have target : streamKey host app stream = keyApp host app ++ byte '/'::stream := by simp [streamKey,keyApp,ascii]
  have single := safeName_slash named.stream
  have sized : (strlcpy (keyApp uplive name) urlMaxLen).length = (streamKey host app stream).length := by rw [same]
  rw [whole] at same sized
  unfold strlcpy at same sized
  rw [List.length_take] at sized
  have length : (uplive ++ byte '/'::name).length = uplive.length + (name.length + 1) := by simp
  rcases Nat.lt_or_ge (urlMaxLen - 1) (uplive.length + (name.length + 1)) with cut | uncut
  · rcases Nat.lt_or_ge uplive.length (urlMaxLen - 1) with inside | filled
    · -- the cut is in the stream name, which is then too short
      obtain ⟨m,room⟩ := Nat.exists_eq_add_of_le (Nat.succ_le_of_lt inside)
      have taken : (uplive ++ byte '/'::name).take (urlMaxLen - 1) = uplive ++ byte '/'::name.take m := by
        rw [room,Nat.succ_eq_add_one,Nat.add_assoc,List.take_length_add_append,Nat.add_comm 1 m,List.take_succ_cons]
      rw [taken,target] at same
      obtain ⟨_,streams⟩ := last_slash same (fun member => bare (List.mem_of_mem_take member)) single
      have count := congrArg List.length streams
      rw [List.length_take] at count
      omega
    · right
      rw [List.take_append_of_le_length filled] at same
      refine ⟨?_,same⟩
      omega
  · left
    rw [List.take_of_length_le (by rw [length]; exact uncut),target] at same
    exact last_slash same bare single

/-- A player admitted for the identifier the webhook gave is attached to it exactly
if the identifier, as far as it fits the streamid buffer, is refused; or it fits
and names the publish app of the streamid the client sent; or that app is itself
configured with a name that spells the identifier up to the size of a key. -/
theorem player_attached_iff (server : Server) (client : Route) (c : Held) (host app stream : Text)
    (named : slsIsSafeName host = true ∧ slsIsSafeName app = true ∧ slsIsSafeName stream = true)
    (accepted : (streamKey host app stream).length < urlMaxLen) :
    (Server.held server client c).AttachedTo (streamKey host app stream) (streamKey host app stream) ↔
      route (strlcpy (streamKey host app stream) sidSize) = none ∨
        (server.getUplive (keyApp client.host client.app) = keyApp host app ∧
          (streamKey host app stream).length < sidSize) ∨
        ((streamKey host app stream).length + 1 = urlMaxLen ∧
          (server.getUplive (keyApp client.host client.app)).take (urlMaxLen - 1) = streamKey host app stream) := by
  have named : Named host app stream := ⟨named.1,named.2.1,named.2.2⟩
  have length : (streamKey host app stream).length = host.length + app.length + 2 + stream.length := by
    rw [streamKey_eq]
    simp
    omega
  have size : sidSize = 1024 := rfl
  constructor
  · intro attached
    cases routed : route (strlcpy (streamKey host app stream) sidSize) with
    | none => exact Or.inl rfl
    | some r =>
      right
      obtain ⟨slashes,cut⟩ := named.route_take routed
      have finishes : (Server.held server client c).drivePending (streamKey host app stream) =
          (Server.held server client c).finish r.stream (streamKey host app stream) := by
        unfold Held.drivePending
        rw [named.cStr,routed]
      have bare : byte '/' ∉ r.stream := safeName_slash r.safe.2.2
      have part : r.stream.length ≤ stream.length := by
        rw [cut]
        exact List.length_take_le' _ _
      have same := attached _ (by simp) _ ⟨fun _ => true,false,fun _ => true,fun _ => true,true,fun _ => true,false⟩ _
        finishes rfl
      rcases named.key_eq bare part accepted same with ⟨apps,streams⟩ | spelled
      · left
        refine ⟨apps,?_⟩
        rw [cut] at streams
        have kept := congrArg List.length streams
        rw [List.length_take] at kept
        omega
      · exact Or.inr spelled
  · intro condition outcome path args around player finishes admitted
    obtain ⟨own,r,routed,name⟩ := Held.finish_args accepted named.cStr path finishes
    rw [Args.finishPlayerAccept_key admitted,Args.keyStreamName,own,name]
    rcases condition with refused | ⟨apps,short⟩ | ⟨filled,spelled⟩
    · rw [refused] at routed
      cases routed
    · rw [strlcpy_short short,named.route] at routed
      cases routed
      change strlcpy (keyApp (server.getUplive (keyApp client.host client.app)) stream) urlMaxLen = _
      rw [apps]
      exact strlcpy_short accepted
    · have long : urlMaxLen - 1 ≤ (server.getUplive (keyApp client.host client.app)).length := by
        have count := congrArg List.length spelled
        rw [List.length_take] at count
        omega
      have front : keyApp (server.getUplive (keyApp client.host client.app)) r.stream =
          server.getUplive (keyApp client.host client.app) ++ byte '/'::r.stream := by simp [keyApp,ascii]
      change strlcpy (keyApp (server.getUplive (keyApp client.host client.app)) r.stream) urlMaxLen = _
      rw [front,strlcpy,List.take_append_of_le_length long]
      exact spelled

def twoApps : Server :=
  ⟨[ascii "play"],ascii "publish",[(ascii "live",ascii "live"),(ascii "sport",ascii "sport")],ascii "http://auth",3000,8,64,
    false⟩

def livePlayer : Route := ⟨ascii "play",ascii "live",ascii "key12345",by decide⟩

theorem player_attached_iff_same_app :
    (Server.held twoApps livePlayer viewer).AttachedTo (ascii "publish/live/cam") (ascii "publish/live/cam") :=
  (player_attached_iff twoApps livePlayer viewer (ascii "publish") (ascii "live") (ascii "cam") (by decide)
    (by decide)).mpr (Or.inr (Or.inl (by decide)))

/-- The key of the stream of one app, asked for under another app's player name. -/
theorem player_attached_under_client_app :
    (ascii "sport" ∈ twoApps.apps.map Prod.snd ∧ route (ascii "publish/sport/cam") ≠ none) ∧
      ¬ (Server.held twoApps livePlayer viewer).AttachedTo (ascii "publish/sport/cam") (ascii "publish/sport/cam") := by
  refine ⟨by decide,fun attached => ?_⟩
  have same := attached _ (by simp) _ ⟨fun _ => true,false,fun _ => true,fun _ => true,true,fun _ => true,false⟩ _
    (show (Server.held twoApps livePlayer viewer).drivePending (ascii "publish/sport/cam") =
      .finish ⟨7,ascii "publish/live",ascii "cam",ascii "publish/sport/cam",ascii "key12345",true,ascii "10.0.0.1",5000,120,
        ascii "s",ascii "t"⟩ by decide) rfl
  revert same
  decide

end SrtLiveServer.PlayerAccept
