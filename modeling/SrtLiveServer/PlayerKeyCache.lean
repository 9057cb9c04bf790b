import Mathlib.Data.List.AList
import SrtLiveServer.Conf
import SrtLiveServer.PlayerKeyGate

/-! How a player-key answer reaches a held connection. A worker tick folds the
webhook answers that have arrived into the key cache and then looks the pending
connections up in it, so what is cached must outlive the tick; its lifetime is
the configured one. -/
namespace SrtLiveServer.PlayerKeyCache
open Bytes StreamId Conf PlayerKeyGate

/-- The player-key settings of a `server` block, zeroed as `create_conf` does. -/
structure ServerConf where
  playerKeyAuthUrl : Text
  playerKeyAuthTimeout : Int
  playerKeyCacheDuration : Int
  playerKeyRateLimitRequests : Int
  playerKeyRateLimitWindow : Int
  playerKeyMaxLength : Int
  playerKeyMinLength : Int
deriving DecidableEq

def ServerConf.zero : ServerConf := ⟨[],0,0,0,0,0,0⟩

def cacheDuration : Text := ascii "player_key_cache_duration"

def serverCmds : List (Cmd ServerConf) :=
  [⟨ascii "player_key_auth_url",setString 1 (urlMaxLen - 1) fun v conf => {conf with playerKeyAuthUrl := v}⟩,
    ⟨ascii "player_key_auth_timeout",setInt 1 30000 fun v conf => {conf with playerKeyAuthTimeout := v}⟩,
    ⟨cacheDuration,setInt 1 300000 fun v conf => {conf with playerKeyCacheDuration := v}⟩,
    ⟨ascii "player_key_rate_limit_requests",setInt (-1) 1000 fun v conf => {conf with playerKeyRateLimitRequests := v}⟩,
    ⟨ascii "player_key_rate_limit_window",setInt 1000 3600000 fun v conf => {conf with playerKeyRateLimitWindow := v}⟩,
    ⟨ascii "player_key_max_length",setInt 1 256 fun v conf => {conf with playerKeyMaxLength := v}⟩,
    ⟨ascii "player_key_min_length",setInt 1 64 fun v conf => {conf with playerKeyMinLength := v}⟩]

/-- One `player_key_*` directive of the block; `none` where the parser refuses the file. -/
def setDirective (conf : ServerConf) (directive : Text × Text) : Option ServerConf :=
  ((serverCmds.find? fun cmd => cmd.name = directive.1).bind fun cmd => cmd.set directive.2).map fun write => write conf

def readServer : ServerConf → List (Text × Text) → Option ServerConf
  | conf,[] => some conf
  | conf,directive::rest => (setDirective conf directive).bind fun next => readServer next rest

inductive MaxPlayers where
  | absent
  | notInteger
  | integer (value : Int)

/-- The body as the JSON parser gives it. -/
inductive Body where
  | malformed
  /-- `streamId` is there if the field is a string. -/
  | object (streamId : Option Text) (maxPlayersPerStream : MaxPlayers)

structure Response where
  success : Bool
  statusCode : Int
  body : Body

abbrev KeyCache : Type := AList fun _ : Text => CacheEntry

def maxPlayerKeyCacheEntries : Nat := 50000
def playerKeyCacheSweepInterval : Int := 5000

def purge (cache : KeyCache) (now : Int) : KeyCache :=
  cache.entries.foldl (fun rest entry => if entry.2.expiryTime ≤ now then rest.erase entry.1 else rest) cache

def victim : List (Sigma fun _ : Text => CacheEntry) → Option Text
  | [] => none
  | first::rest => some (rest.foldl (fun best entry =>
      if entry.2.expiryTime < best.2.expiryTime then entry else best) first).1

/-- The new cache, and whether a live entry was evicted for it. -/
def insertPlayerKeyCacheLocked (cache : KeyCache) (key : Text) (entry : CacheEntry) (now : Int) : KeyCache × Bool :=
  match cache.lookup key with
  | some _ => (cache.insert key entry,false)
  | none =>
    if maxPlayerKeyCacheEntries ≤ cache.entries.length then
      let live := purge cache now
      if maxPlayerKeyCacheEntries ≤ live.entries.length then
        match victim live.entries with
        | some evicted => ((live.erase evicted).insert key entry,true)
        | none => (live.insert key entry,false)
      else (live.insert key entry,false)
    else (cache.insert key entry,false)

def responseEntry (duration : Int) (response : Response) (now : Int) : CacheEntry :=
  let negative : CacheEntry := ⟨[],false,now + duration / 4,none⟩
  if !response.success then negative
  else if response.statusCode ≠ 200 then negative
  else match response.body with
    | .malformed => negative
    | .object none _ => negative
    | .object (some streamId) maxPlayers =>
      if streamId = [] ∨ urlMaxLen ≤ streamId.length then negative
      else ⟨streamId,true,now + duration,match maxPlayers with
        | .integer value => if value < -1 then none else some value
        | _ => none⟩

structure State where
  conf : ServerConf
  cache : KeyCache
  lastPlayerKeyCacheSweep : Int
  /-- `m_pending_player_key_validations`, with the answer where it has arrived. -/
  validations : AList fun _ : Text => Option Response
  pending : List PendingPlayerConnection
  log : List Event
  /-- `m_srt` is set and valid. -/
  listening : Bool
  /-- Live cache entries evicted so far. -/
  evictions : Nat

def State.sweepPlayerKeyCache (s : State) (now : Int) : State :=
  if now - s.lastPlayerKeyCacheSweep < playerKeyCacheSweepInterval then s
  else {s with lastPlayerKeyCacheSweep := now,cache := purge s.cache now}

def State.processPlayerKeyResponse (s : State) (key : Text) (response : Response) (now : Int) : State :=
  let (cache,evicted) :=
    insertPlayerKeyCacheLocked s.cache key (responseEntry s.conf.playerKeyCacheDuration response now) now
  {s with cache := cache,evictions := if evicted then s.evictions + 1 else s.evictions}

def State.drainOne (now : Int) (s : State) (validation : Sigma fun _ : Text => Option Response) : State :=
  match validation.2 with
  | none => s
  | some response =>
    let processed := s.processPlayerKeyResponse validation.1 response now
    {processed with validations := processed.validations.erase validation.1}

def State.drainPlayerKeyValidations (s : State) (now : Int) : State :=
  s.validations.entries.foldl (State.drainOne now) s

def State.gate (s : State) : PlayerKeyGate.State := ⟨fun key => s.cache.lookup key,s.pending,0,s.log⟩

def State.drivePendingPlayerConnections (s : State) (now : Int) : State :=
  let driven := s.gate.drivePendingPlayerConnections now
  {s with pending := driven.pending,log := driven.log}

/-- `on_worker_tick`, with one reading of the clock. -/
def State.onWorkerTick (s : State) (now : Int) : State :=
  if !s.listening then s
  else ((s.sweepPlayerKeyCache now).drainPlayerKeyValidations now).drivePendingPlayerConnections now

def State.drained (s : State) (now : Int) : State := (s.sweepPlayerKeyCache now).drainPlayerKeyValidations now

/-- The tick's turn for the connection finishes its accept: it is neither held on
nor closed. -/
def State.Admits (s : State) (now : Int) (pend : PendingPlayerConnection) (stream : Text) : Prop :=
  let turn := PlayerKeyGate.State.driveOne now ⟨(s.drained now).gate.cache,[],0,[]⟩ pend
  let next := s.onWorkerTick now
  turn.log = [.foundValid pend.conn pend.playerKey,.finishPlayerAccept pend.conn pend.appUplive stream pend.playerKey true] ∧
    turn.log ⊆ next.log.drop s.log.length ∧ pend ∉ next.pending

instance (s : State) (now : Int) (pend : PendingPlayerConnection) (stream : Text) : Decidable (s.Admits now pend stream) :=
  inferInstanceAs (Decidable (_ ∧ _ ∧ _))

theorem setDirective_cases {conf next : ServerConf} {directive : Text × Text}
    (set : setDirective conf directive = some next) :
    (directive.1 = cacheDuration ∧ 1 ≤ next.playerKeyCacheDuration) ∨
      (directive.1 ≠ cacheDuration ∧ next.playerKeyCacheDuration = conf.playerKeyCacheDuration) := by
  obtain ⟨write,stored,rfl⟩ := Option.map_eq_some_iff.mp set
  obtain ⟨cmd,found,set⟩ := Option.bind_eq_some_iff.mp stored
  have named : cmd.name = directive.1 := by simpa using List.find?_some found
  rw [← named]
  have listed := List.mem_of_find?_eq_some found
  simp only [serverCmds,List.mem_cons,List.not_mem_nil,or_false] at listed
  rcases listed with rfl | rfl | rfl | rfl | rfl | rfl | rfl
  · right
    refine ⟨by decide,?_⟩
    simp only [setString] at set
    split at set
    · cases set
    · cases set
      rfl
  · obtain ⟨_,_,_,rfl⟩ := setInt_eq set
    exact Or.inr ⟨by decide,rfl⟩
  · obtain ⟨_,positive,_,rfl⟩ := setInt_eq set
    exact Or.inl ⟨rfl,positive⟩
  · obtain ⟨_,_,_,rfl⟩ := setInt_eq set
    exact Or.inr ⟨by decide,rfl⟩
  · obtain ⟨_,_,_,rfl⟩ := setInt_eq set
    exact Or.inr ⟨by decide,rfl⟩
  · obtain ⟨_,_,_,rfl⟩ := setInt_eq set
    exact Or.inr ⟨by decide,rfl⟩
  · obtain ⟨_,_,_,rfl⟩ := setInt_eq set
    exact Or.inr ⟨by decide,rfl⟩

theorem readServer_duration (directives : List (Text × Text)) {conf final : ServerConf}
    (read : readServer conf directives = some final) :
    (cacheDuration ∈ directives.map Prod.fst → 1 ≤ final.playerKeyCacheDuration) ∧
      (cacheDuration ∉ directives.map Prod.fst → final.playerKeyCacheDuration = conf.playerKeyCacheDuration) := by
  induction directives generalizing conf with
  | nil =>
    cases read
    exact ⟨fun member => absurd member List.not_mem_nil,fun _ => rfl⟩
  | cons directive rest ih =>
    obtain ⟨next,set,read⟩ := Option.bind_eq_some_iff.mp read
    obtain ⟨later,unset⟩ := ih read
    rw [List.map_cons]
    constructor
    · intro member
      by_cases inRest : cacheDuration ∈ rest.map Prod.fst
      · exact later inRest
      · have first : directive.1 = cacheDuration :=
          ((List.mem_cons.mp member).resolve_right inRest).symm
        rw [unset inRest]
        rcases setDirective_cases set with ⟨_,positive⟩ | ⟨other,_⟩
        · exact positive
        · exact absurd first other
    · intro absent
      rw [List.mem_cons,not_or] at absent
      rw [unset absent.2]
      rcases setDirective_cases set with ⟨same,_⟩ | ⟨_,kept⟩
      · exact absurd same.symm absent.1
      · exact kept

theorem erase_lookup {cache : KeyCache} {key other : Text} {entry : CacheEntry}
    (found : (cache.erase other).lookup key = some entry) : cache.lookup key = some entry := by
  by_cases same : key = other
  · subst same
    rw [AList.lookup_erase] at found
    cases found
  · rw [AList.lookup_erase_ne same] at found
    exact found

theorem foldl_purge_lookup (entries : List (Sigma fun _ : Text => CacheEntry)) (cache : KeyCache) (now : Int) (key : Text) :
    (entries.foldl (fun rest entry => if entry.2.expiryTime ≤ now then rest.erase entry.1 else rest) cache).lookup key =
      if ∃ entry ∈ entries, entry.1 = key ∧ entry.2.expiryTime ≤ now then none else cache.lookup key := by
  induction entries generalizing cache with
  | nil =>
    rw [if_neg]
    · rfl
    · rintro ⟨_,member,_⟩
      cases member
  | cons first rest ih =>
    rw [List.foldl_cons,ih]
    simp only [List.exists_mem_cons_iff]
    by_cases later : ∃ entry ∈ rest, entry.1 = key ∧ entry.2.expiryTime ≤ now
    · rw [if_pos later,if_pos (Or.inr later)]
    · rw [if_neg later]
      by_cases own : first.1 = key ∧ first.2.expiryTime ≤ now
      · rw [if_pos (Or.inl own),if_pos own.2,own.1,AList.lookup_erase]
      · rw [if_neg (not_or.mpr ⟨own,later⟩)]
        split
        · rename_i expired
          exact AList.lookup_erase_ne fun same => own ⟨same.symm,expired⟩
        · rfl

theorem lookup_purge (cache : KeyCache) (now : Int) (key : Text) :
    (purge cache now).lookup key = (cache.lookup key).filter fun entry => now < entry.expiryTime := by
  unfold purge
  rw [foldl_purge_lookup]
  have own : (∃ entry ∈ cache.entries, entry.1 = key ∧ entry.2.expiryTime ≤ now) ↔
      ∃ entry, cache.lookup key = some entry ∧ entry.expiryTime ≤ now := by
    constructor
    · rintro ⟨⟨name,entry⟩,member,rfl,expired⟩
      exact ⟨entry,AList.mem_lookup_iff.mpr member,expired⟩
    · rintro ⟨entry,found,expired⟩
      exact ⟨⟨key,entry⟩,AList.mem_lookup_iff.mp found,rfl,expired⟩
  rw [if_congr own rfl rfl]
  cases cache.lookup key with
  | none => simp
  | some entry =>
    rw [Option.filter_some]
    by_cases live : now < entry.expiryTime
    · rw [if_pos (decide_eq_true live),if_neg]
      rintro ⟨other,same,expired⟩
      cases same
      omega
    · have expired : ∃ other, some entry = some other ∧ other.expiryTime ≤ now := ⟨entry,rfl,Int.not_lt.mp live⟩
      rw [if_pos expired,decide_eq_false live]
      rfl

theorem purge_lookup {cache : KeyCache} {key : Text} {entry : CacheEntry} (now : Int)
    (found : (purge cache now).lookup key = some entry) : cache.lookup key = some entry := by
  rw [lookup_purge,Option.filter_eq_some_iff] at found
  exact found.1

theorem purge_live {cache : KeyCache} {key : Text} {entry : CacheEntry} {now : Int}
    (found : cache.lookup key = some entry) (live : now < entry.expiryTime) : (purge cache now).lookup key = some entry := by
  rw [lookup_purge,found,Option.filter_some,if_pos (decide_eq_true live)]

section Insert

variable {cache : KeyCache} {key other : Text} {entry fresh : CacheEntry} {now : Int}

theorem victim_isSome {live : KeyCache} (full : maxPlayerKeyCacheEntries ≤ live.entries.length) :
    ∃ evicted, victim live.entries = some evicted := by
  cases entries : live.entries with
  | nil =>
    rw [entries] at full
    exact absurd full (by decide)
  | cons first rest => exact ⟨_,rfl⟩

/-- An insertion keeps what there was; or purges a full map; or evicts from one that a purge leaves full. -/
theorem insert_cases :
    ((key ∈ cache ∨ cache.entries.length < maxPlayerKeyCacheEntries) ∧
        insertPlayerKeyCacheLocked cache key fresh now = (cache.insert key fresh,false)) ∨
      (key ∉ cache ∧ (purge cache now).entries.length < maxPlayerKeyCacheEntries ∧
        insertPlayerKeyCacheLocked cache key fresh now = ((purge cache now).insert key fresh,false)) ∨
      (key ∉ cache ∧ maxPlayerKeyCacheEntries ≤ (purge cache now).entries.length ∧ ∃ evicted,
        victim (purge cache now).entries = some evicted ∧
        insertPlayerKeyCacheLocked cache key fresh now = (((purge cache now).erase evicted).insert key fresh,true)) := by
  unfold insertPlayerKeyCacheLocked
  cases found : cache.lookup key with
  | some old => exact Or.inl ⟨Or.inl (AList.lookup_isSome.mp (Option.isSome_of_eq_some found)),rfl⟩
  | none =>
    have absent : key ∉ cache := AList.lookup_eq_none.mp found
    dsimp only
    by_cases full : maxPlayerKeyCacheEntries ≤ cache.entries.length
    · rw [if_pos full]
      by_cases crowded : maxPlayerKeyCacheEntries ≤ (purge cache now).entries.length
      · obtain ⟨evicted,chosen⟩ := victim_isSome crowded
        rw [if_pos crowded,chosen]
        exact Or.inr (Or.inr ⟨absent,crowded,evicted,rfl,rfl⟩)
      · rw [if_neg crowded]
        exact Or.inr (Or.inl ⟨absent,Nat.lt_of_not_le crowded,rfl⟩)
    · rw [if_neg full]
      exact Or.inl ⟨Or.inr (Nat.lt_of_not_le full),rfl⟩

theorem insert_self : (insertPlayerKeyCacheLocked cache key fresh now).1.lookup key = some fresh := by
  rcases @insert_cases cache key fresh now with ⟨_,inserted⟩ | ⟨_,_,inserted⟩ | ⟨_,_,_,_,inserted⟩
  all_goals
    rw [inserted]
    exact AList.lookup_insert _

theorem insert_other (apart : key ≠ other)
    (found : (insertPlayerKeyCacheLocked cache other fresh now).1.lookup key = some entry) :
    cache.lookup key = some entry := by
  rcases @insert_cases cache other fresh now with ⟨_,inserted⟩ | ⟨_,_,inserted⟩ | ⟨_,_,_,_,inserted⟩
  all_goals rw [inserted,AList.lookup_insert_ne apart] at found
  · exact found
  · exact purge_lookup now found
  · exact purge_lookup now (erase_lookup found)

theorem insert_live (apart : key ≠ other) (found : cache.lookup key = some entry) (live : now < entry.expiryTime)
    (spared : (insertPlayerKeyCacheLocked cache other fresh now).2 = false) :
    (insertPlayerKeyCacheLocked cache other fresh now).1.lookup key = some entry := by
  rcases @insert_cases cache other fresh now with ⟨_,inserted⟩ | ⟨_,_,inserted⟩ | ⟨_,_,_,_,inserted⟩
  · rw [inserted,AList.lookup_insert_ne apart]
    exact found
  · rw [inserted,AList.lookup_insert_ne apart]
    exact purge_live found live
  · rw [inserted] at spared
    cases spared

end Insert

theorem State.drainOne_cache (now : Int) (s : State) (key : Text) (response : Response) :
    let inserted := insertPlayerKeyCacheLocked s.cache key (responseEntry s.conf.playerKeyCacheDuration response now) now
    (s.drainOne now ⟨key,some response⟩).cache = inserted.1 ∧
      (s.drainOne now ⟨key,some response⟩).evictions = s.evictions + (if inserted.2 then 1 else 0) := by
  refine ⟨rfl,?_⟩
  change (if (insertPlayerKeyCacheLocked s.cache key (responseEntry s.conf.playerKeyCacheDuration response now) now).2 then
    s.evictions + 1 else s.evictions) = _
  cases (insertPlayerKeyCacheLocked s.cache key (responseEntry s.conf.playerKeyCacheDuration response now) now).2 with
  | false => rfl
  | true => rfl

theorem State.drainOne_conf (now : Int) (s : State) (validation : Sigma fun _ : Text => Option Response) :
    (s.drainOne now validation).conf = s.conf ∧ s.evictions ≤ (s.drainOne now validation).evictions := by
  obtain ⟨key,answer⟩ := validation
  cases answer with
  | none => exact ⟨rfl,Nat.le_refl _⟩
  | some response =>
    refine ⟨rfl,?_⟩
    rw [(s.drainOne_cache now key response).2]
    exact Nat.le_add_right _ _

section Drain

variable (now : Int) (entries : List (Sigma fun _ : Text => Option Response))

theorem State.drain_conf (s : State) :
    (entries.foldl (State.drainOne now) s).conf = s.conf ∧ s.evictions ≤ (entries.foldl (State.drainOne now) s).evictions := by
  induction entries generalizing s with
  | nil => exact ⟨rfl,Nat.le_refl _⟩
  | cons first rest ih =>
    obtain ⟨conf,evictions⟩ := s.drainOne_conf now first
    obtain ⟨later,grows⟩ := ih (s.drainOne now first)
    exact ⟨later.trans conf,Nat.le_trans evictions grows⟩

theorem State.drain_other (s : State) {key : Text} (apart : ∀ validation ∈ entries, key ≠ validation.1) {entry : CacheEntry}
    (found : (entries.foldl (State.drainOne now) s).cache.lookup key = some entry) : s.cache.lookup key = some entry := by
  induction entries generalizing s with
  | nil => exact found
  | cons first rest ih =>
    have kept := ih (s.drainOne now first) (fun validation member => apart validation (List.mem_cons_of_mem _ member)) found
    obtain ⟨other,answer⟩ := first
    cases answer with
    | none => exact kept
    | some response =>
      rw [(s.drainOne_cache now other response).1] at kept
      exact insert_other (apart _ (List.mem_cons_self ..)) kept

theorem State.drain_live (s : State) {key : Text} (apart : ∀ validation ∈ entries, key ≠ validation.1) {entry : CacheEntry}
    (found : s.cache.lookup key = some entry) (live : now < entry.expiryTime)
    (spared : (entries.foldl (State.drainOne now) s).evictions = s.evictions) :
    (entries.foldl (State.drainOne now) s).cache.lookup key = some entry := by
  induction entries generalizing s with
  | nil => exact found
  | cons first rest ih =>
    obtain ⟨other,answer⟩ := first
    have grows := (s.drainOne_conf now ⟨other,answer⟩).2
    have later := (State.drain_conf now rest (s.drainOne now ⟨other,answer⟩)).2
    rw [List.foldl_cons] at spared ⊢
    have here : (s.drainOne now ⟨other,answer⟩).evictions = s.evictions := by omega
    apply ih _ (fun validation member => apart validation (List.mem_cons_of_mem _ member))
    · cases answer with
      | none => exact found
      | some response =>
        obtain ⟨cache,evictions⟩ := s.drainOne_cache now other response
        rw [cache]
        apply insert_live (apart _ (List.mem_cons_self ..)) found live
        by_contra evicted
        rw [if_pos (eq_true_of_ne_false evicted)] at evictions
        omega
    · omega

end Drain

theorem State.sweepPlayerKeyCache_kept (s : State) (now : Int) :
    (s.sweepPlayerKeyCache now).validations = s.validations ∧ (s.sweepPlayerKeyCache now).conf = s.conf ∧
      (s.sweepPlayerKeyCache now).evictions = s.evictions := by
  unfold State.sweepPlayerKeyCache
  split <;> exact ⟨rfl,rfl,rfl⟩

theorem State.drainOne_connections (now : Int) (s : State) (validation : Sigma fun _ : Text => Option Response) :
    (s.drainOne now validation).log = s.log ∧ (s.drainOne now validation).pending = s.pending := by
  obtain ⟨_,answer⟩ := validation
  cases answer with
  | none => exact ⟨rfl,rfl⟩
  | some response => exact ⟨rfl,rfl⟩

theorem State.drained_connections (s : State) (now : Int) :
    (s.drained now).log = s.log ∧ (s.drained now).pending = s.pending := by
  have swept : (s.sweepPlayerKeyCache now).log = s.log ∧ (s.sweepPlayerKeyCache now).pending = s.pending := by
    unfold State.sweepPlayerKeyCache
    split <;> exact ⟨rfl,rfl⟩
  unfold State.drained State.drainPlayerKeyValidations
  apply List.foldlRecOn (motive := fun met : State => met.log = s.log ∧ met.pending = s.pending) _ _ swept
  intro met ih validation _
  obtain ⟨log,pending⟩ := met.drainOne_connections now validation
  exact ⟨log.trans ih.1,pending.trans ih.2⟩

/-- After the drain an answered key has the answer's entry, unless that is expired already. -/
theorem State.drained_lookup (s : State) (now : Int) {key : Text} {response : Response}
    (ready : s.validations.lookup key = some (some response)) :
    let entry := responseEntry s.conf.playerKeyCacheDuration response now
    (now < entry.expiryTime → (s.drained now).evictions = s.evictions → (s.drained now).cache.lookup key = some entry) ∧
      ∀ found, (s.drained now).cache.lookup key = some found → found = entry := by
  obtain ⟨validations,conf,evictions⟩ := s.sweepPlayerKeyCache_kept now
  unfold State.drained State.drainPlayerKeyValidations
  generalize s.sweepPlayerKeyCache now = swept at validations conf evictions
  rw [← validations] at ready
  rw [← conf,← evictions]
  obtain ⟨before,after,split⟩ := List.append_of_mem (AList.mem_lookup_iff.mp ready)
  have keys := swept.validations.nodupKeys
  rw [split] at keys ⊢
  have apart : ∀ validation ∈ after, key ≠ validation.1 := by
    have nodup : (before ++ ⟨key,some response⟩::after).keys.Nodup := keys
    rw [List.keys,List.map_append,List.map_cons] at nodup
    have fresh := (List.nodup_cons.mp (List.nodup_append.mp nodup).2.1).1
    intro validation member same
    exact fresh (List.mem_map.mpr ⟨validation,member,same.symm⟩)
  rw [List.foldl_append,List.foldl_cons]
  obtain ⟨sameConf,more⟩ := State.drain_conf now before swept
  generalize before.foldl (State.drainOne now) swept = met at sameConf more
  have stored : (met.drainOne now ⟨key,some response⟩).cache.lookup key =
      some (responseEntry swept.conf.playerKeyCacheDuration response now) := by
    rw [(met.drainOne_cache now key response).1,insert_self,sameConf]
  have here := (met.drainOne_conf now ⟨key,some response⟩).2
  generalize met.drainOne now ⟨key,some response⟩ = answered at stored here
  constructor
  · intro live spared
    have later := (State.drain_conf now after answered).2
    exact State.drain_live now after answered apart stored live (by omega)
  · intro found kept
    have same := State.drain_other now after answered apart kept
    rw [stored] at same
    exact (Option.some.inj same).symm

theorem driveOne_turn (now : Int) (s : PlayerKeyGate.State) (pend : PendingPlayerConnection) :
    let turn := PlayerKeyGate.State.driveOne now ⟨s.cache,[],0,[]⟩ pend
    (s.driveOne now pend).cache = s.cache ∧ (s.driveOne now pend).log = s.log ++ turn.log ∧
      (s.driveOne now pend).pending = s.pending ++ turn.pending ∧ ∀ held ∈ turn.pending, held = pend := by
  unfold PlayerKeyGate.State.driveOne
  dsimp only
  cases (s.cache pend.playerKey).filter fun entry => decide (now < entry.expiryTime) with
  | some entry =>
    dsimp only
    split
    · cases route (strlcpy (cStr entry.resolvedStreamId) sidSize) with
      | none => exact ⟨rfl,by simp [State.emit],by simp [State.emit],fun _ member => by cases member⟩
      | some r => exact ⟨rfl,by simp [State.emit],by simp [State.emit],fun _ member => by cases member⟩
    · exact ⟨rfl,by simp [State.emit],by simp [State.emit],fun _ member => by cases member⟩
  | none =>
    dsimp only
    split
    · exact ⟨rfl,by simp [State.emit],by simp [State.emit],fun _ member => by cases member⟩
    · exact ⟨rfl,by simp,rfl,fun held member => by simpa using member⟩

theorem drive_turns (now : Int) (list : List PendingPlayerConnection) (s : PlayerKeyGate.State) :
    let turn := PlayerKeyGate.State.driveOne now ⟨s.cache,[],0,[]⟩
    (list.foldl (PlayerKeyGate.State.driveOne now) s).log = s.log ++ list.flatMap (fun pend => (turn pend).log) ∧
      (list.foldl (PlayerKeyGate.State.driveOne now) s).pending =
        s.pending ++ list.flatMap (fun pend => (turn pend).pending) := by
  induction list generalizing s with
  | nil => simp
  | cons pend rest ih =>
    obtain ⟨cache,log,pending,_⟩ := driveOne_turn now s pend
    obtain ⟨logs,held⟩ := ih (s.driveOne now pend)
    rw [cache] at logs held
    dsimp only
    rw [List.foldl_cons,logs,held,log,pending,List.flatMap_cons,List.flatMap_cons,List.append_assoc,List.append_assoc]
    exact ⟨rfl,rfl⟩

theorem responseEntry_valid {response : Response} {streamId : Text} {maxPlayers : MaxPlayers} (success : response.success = true)
    (status : response.statusCode = 200) (body : response.body = .object (some streamId) maxPlayers)
    (named : streamId ≠ []) (short : streamId.length < urlMaxLen) (duration now : Int) :
    (responseEntry duration response now).isValid = true ∧
      (responseEntry duration response now).resolvedStreamId = streamId ∧
      (responseEntry duration response now).expiryTime = now + duration := by
  have kept : ¬ (streamId = [] ∨ urlMaxLen ≤ streamId.length) := by
    rw [not_or]
    exact ⟨named,Nat.not_le_of_lt short⟩
  unfold responseEntry
  rw [success,status,body]
  simp only [Bool.not_true,Bool.false_eq_true,if_false,ne_eq,not_true_eq_false]
  rw [if_neg kept]
  exact ⟨rfl,rfl,rfl⟩

theorem driveOne_valid {cache : Cache} {pend : PendingPlayerConnection} {entry : CacheEntry} {now : Int} {r : Route}
    (found : cache pend.playerKey = some entry) (live : now < entry.expiryTime) (valid : entry.isValid = true)
    (routed : route (strlcpy (cStr entry.resolvedStreamId) sidSize) = some r) :
    let turn := PlayerKeyGate.State.driveOne now ⟨cache,[],0,[]⟩ pend
    turn.log = [.foundValid pend.conn pend.playerKey,.finishPlayerAccept pend.conn pend.appUplive r.stream pend.playerKey true] ∧
      turn.pending = [] := by
  unfold PlayerKeyGate.State.driveOne
  dsimp only
  rw [found,Option.filter_some,if_pos (decide_eq_true live)]
  dsimp only
  rw [if_pos valid,routed]
  exact ⟨rfl,rfl⟩

theorem driveOne_held {cache : Cache} {pend : PendingPlayerConnection} {now : Int} (early : now < pend.deadline)
    (dead : ∀ entry, cache pend.playerKey = some entry → entry.expiryTime ≤ now) :
    (PlayerKeyGate.State.driveOne now ⟨cache,[],0,[]⟩ pend).log = [] := by
  have none : (cache pend.playerKey).filter (fun entry => decide (now < entry.expiryTime)) = none := by
    rw [Option.filter_eq_none_iff]
    intro entry found unexpired
    have expired := dead entry found
    have live := of_decide_eq_true unexpired
    omega
  unfold PlayerKeyGate.State.driveOne
  dsimp only
  rw [none]
  dsimp only
  rw [if_neg (by omega)]

theorem State.onWorkerTick_turn (s : State) (now : Int) (listening : s.listening = true)
    {pend : PendingPlayerConnection} (held : pend ∈ s.pending) :
    let turn := PlayerKeyGate.State.driveOne now ⟨(s.drained now).gate.cache,[],0,[]⟩ pend
    turn.log ⊆ (s.onWorkerTick now).log.drop s.log.length ∧ (turn.pending = [] → pend ∉ (s.onWorkerTick now).pending) := by
  have tick : s.onWorkerTick now = (s.drained now).drivePendingPlayerConnections now := by
    unfold State.onWorkerTick
    rw [listening]
    rfl
  obtain ⟨log,pending⟩ := drive_turns now s.pending ⟨(s.drained now).gate.cache,[],0,s.log⟩
  obtain ⟨sameLog,samePending⟩ := s.drained_connections now
  have next : (s.onWorkerTick now).log = s.log ++ s.pending.flatMap (fun each =>
        (PlayerKeyGate.State.driveOne now ⟨(s.drained now).gate.cache,[],0,[]⟩ each).log) ∧
      (s.onWorkerTick now).pending = s.pending.flatMap (fun each =>
        (PlayerKeyGate.State.driveOne now ⟨(s.drained now).gate.cache,[],0,[]⟩ each).pending) := by
    rw [tick]
    unfold State.drivePendingPlayerConnections PlayerKeyGate.State.drivePendingPlayerConnections
    dsimp only [State.gate] at log pending ⊢
    rw [sameLog,samePending]
    exact ⟨log,pending⟩
  rw [next.1,next.2,List.drop_left]
  constructor
  · intro event member
    exact List.mem_flatMap.mpr ⟨pend,held,member⟩
  · intro done stays
    obtain ⟨other,_,kept⟩ := List.mem_flatMap.mp stays
    have same := (driveOne_turn now ⟨(s.drained now).gate.cache,[],0,[]⟩ other).2.2.2 pend kept
    subst same
    rw [done] at kept
    exact List.not_mem_nil kept

theorem State.onWorkerTick_evictions (s : State) (now : Int) (listening : s.listening = true) :
    (s.onWorkerTick now).evictions = (s.drained now).evictions := by
  unfold State.onWorkerTick
  rw [listening]
  rfl

/-- A tick that folds in the answer which authorizes a held connection's key admits
the connection, before its deadline and without an eviction, exactly if the server
block sets `player_key_cache_duration`: the zeroed setting caches the answer as
expired. -/
theorem authorized_player_admitted_iff (directives : List (Text × Text)) (s : State)
    (read : readServer .zero directives = some s.conf) (listening : s.listening = true) (now : Int)
    (pend : PendingPlayerConnection) (held : pend ∈ s.pending) (early : now < pend.deadline) (response : Response)
    (ready : s.validations.lookup pend.playerKey = some (some response)) (success : response.success = true)
    (status : response.statusCode = 200) (streamId : Text) (maxPlayers : MaxPlayers)
    (body : response.body = .object (some streamId) maxPlayers) (short : streamId.length < sidSize) (r : Route)
    (routed : route (cStr streamId) = some r) (spared : (s.onWorkerTick now).evictions = s.evictions) :
    s.Admits now pend r.stream ↔ cacheDuration ∈ directives.map Prod.fst := by
  have named : streamId ≠ [] := by
    intro empty
    subst streamId
    have unrouted : route (cStr []) = none := by decide
    rw [unrouted] at routed
    cases routed
  have fits : streamId.length < urlMaxLen := Nat.lt_trans short (by decide)
  obtain ⟨valid,resolved,expiry⟩ := responseEntry_valid success status body named fits s.conf.playerKeyCacheDuration now
  obtain ⟨stored,only⟩ := s.drained_lookup now ready
  obtain ⟨set,unset⟩ := readServer_duration directives read
  constructor
  · intro admits
    by_contra absent
    have zero : s.conf.playerKeyCacheDuration = 0 := unset absent
    have dead : ∀ entry, (s.drained now).gate.cache pend.playerKey = some entry → entry.expiryTime ≤ now := by
      intro entry found
      rw [only entry found,expiry,zero]
      omega
    have finished := admits.1
    rw [driveOne_held early dead] at finished
    cases finished
  · intro present
    have positive := set present
    have live : now < (responseEntry s.conf.playerKeyCacheDuration response now).expiryTime := by omega
    have found : (s.drained now).gate.cache pend.playerKey = some (responseEntry s.conf.playerKeyCacheDuration response now) := by
      apply stored live
      rw [← s.onWorkerTick_evictions now listening]
      exact spared
    have parsed : route (strlcpy (cStr (responseEntry s.conf.playerKeyCacheDuration response now).resolvedStreamId) sidSize) = some r := by
      rw [resolved,strlcpy_short (Nat.lt_of_le_of_lt (cStr_length _) short)]
      exact routed
    obtain ⟨log,done⟩ := driveOne_valid found live valid parsed
    obtain ⟨logged,gone⟩ := s.onWorkerTick_turn now listening held
    exact ⟨log,logged,gone done⟩

def heldPlayer : PendingPlayerConnection := ⟨⟨0,ascii "play/live/key-1234"⟩,ascii "pub/live",ascii "key-1234",2000⟩

def resolvedKey : Response := ⟨true,200,.object (some (ascii "pub/live/cam")) .absent⟩

def answered (conf : ServerConf) : State where
  conf := conf
  cache := ∅
  lastPlayerKeyCacheSweep := 0
  validations := AList.singleton heldPlayer.playerKey (some resolvedKey)
  pending := [heldPlayer]
  log := []
  listening := true
  evictions := 0

def keyDirectives : List (Text × Text) :=
  [(ascii "player_key_auth_url",ascii "http://auth.example/validate"),(ascii "player_key_min_length",ascii "8"),
    (ascii "player_key_max_length",ascii "64")]

def readConf (directives : List (Text × Text)) : ServerConf := (readServer .zero directives).getD .zero

theorem authorized_player_admitted_iff_cached :
    let directives := (cacheDuration,ascii "60000")::keyDirectives
    (answered (readConf directives)).Admits 1000 heldPlayer (ascii "cam") ∧ cacheDuration ∈ directives.map Prod.fst := by
  have present : cacheDuration ∈ ((cacheDuration,ascii "60000")::keyDirectives).map Prod.fst := List.mem_cons_self ..
  refine ⟨?_,present⟩
  have ready : (answered (readConf ((cacheDuration,ascii "60000")::keyDirectives))).validations.lookup heldPlayer.playerKey =
      some (some resolvedKey) := by
    unfold answered
    dsimp only
    rw [← AList.insert_empty]
    exact AList.lookup_insert _
  apply (authorized_player_admitted_iff ((cacheDuration,ascii "60000")::keyDirectives) (answered _) (by decide) rfl 1000 heldPlayer
    (List.mem_singleton_self _) (by decide) resolvedKey ready rfl rfl (ascii "pub/live/cam") .absent rfl (by decide)
    ⟨ascii "pub",ascii "live",ascii "cam",by decide⟩ (by decide) (by decide)).mpr
  exact present

/-- Without the directive the answer is cached as expired, and the player waits on. -/
theorem authorized_player_left_pending :
    let s := answered (readConf keyDirectives)
    readServer .zero keyDirectives = some s.conf ∧ s.conf.playerKeyAuthUrl ≠ [] ∧ 1000 < heldPlayer.deadline ∧
      (s.onWorkerTick 1000).evictions = s.evictions ∧ ¬ s.Admits 1000 heldPlayer (ascii "cam") ∧
      (s.onWorkerTick 1000).pending = [heldPlayer] ∧ (s.onWorkerTick 1000).validations.lookup heldPlayer.playerKey = none := by
  decide

end SrtLiveServer.PlayerKeyCache
