import SrtLiveServer.PlayerKeyCache
import SrtLiveServer.PushUrl
import SrtLiveServer.SlidingWindow

/-! Player keys from a request to the answer for it: the rate limiter in front of the
key cache, the webhook validations in flight, and the cache their answers fill. Times
are milliseconds of the steady clock, which one call reads several times. -/
namespace SrtLiveServer.PlayerKeyValidation
open Bytes PlayerKeyGate PlayerKeyCache PushUrl SlidingWindow Transition

/-- The player-key members of a listener; the parser refuses a negative window. -/
structure Settings where
  server : Server
  playerKeyCacheDuration : Int
  playerKeyRateLimitRequests : Int
  playerKeyRateLimitWindow : Int
  window_nonneg : 0 ≤ playerKeyRateLimitWindow

def maxRateLimitEntries : Nat := 100000
def rateLimitCleanupInterval : Int := 1000
def maxPendingPlayerKeyValidations : Nat := 1024

/-- `request_times` of each tracked source. -/
abbrev RateLimitMap : Type := AList fun _ : Text => List Int

def keepRecent (windowStart : Int) (entry : Sigma fun _ : Text => List Int) : Option (Sigma fun _ : Text => List Int) :=
  let requestTimes := trim id windowStart entry.2
  if requestTimes = [] then none else some ⟨entry.1,requestTimes⟩

theorem keepRecent_keys (windowStart : Int) (entries : List (Sigma fun _ : Text => List Int)) :
    (entries.filterMap (keepRecent windowStart)).keys.Sublist entries.keys := by
  induction entries with
  | nil => exact List.Sublist.refl _
  | cons entry rest ih =>
    rw [List.filterMap_cons]
    unfold keepRecent
    by_cases empty : trim id windowStart entry.2 = []
    · rw [if_pos empty]
      exact ih.trans (List.sublist_cons_self _ _)
    · rw [if_neg empty]
      exact ih.cons_cons entry.1

/-- The loop over the map of `cleanup_expired_rate_limits` and `update_rate_limit`. -/
def dropExpired (map : RateLimitMap) (windowStart : Int) : RateLimitMap where
  entries := map.entries.filterMap (keepRecent windowStart)
  nodupKeys := (keepRecent_keys windowStart map.entries).nodup map.nodupKeys

structure State where
  cache : KeyCache
  lastPlayerKeyCacheSweep : Int
  rateLimitMap : RateLimitMap
  lastRateLimitCleanup : Int
  /-- The keys of `m_pending_player_key_validations`. -/
  pendingValidations : List Text

/-- The readings one `validate_player_key` call takes, in the order of the calls below it. -/
structure Readings where
  checked : Int
  cleaned : Int
  lookedUp : Int
  counted : Int
deriving DecidableEq

/-- A webhook request on its way. -/
structure Dispatch where
  clientIp : Option Text
  url : Text
  time : Int
  /-- The limiter has it in its map. -/
  counted : Bool
deriving DecidableEq

structure Call where
  state : State
  answer : Validation
  /-- Refused by the rate limiter. -/
  limited : Bool
  dispatch : Option Dispatch

def Settings.cleanupExpiredRateLimits (l : Settings) (s : State) (now : Int) : State :=
  if now - s.lastRateLimitCleanup < rateLimitCleanupInterval then s
  else {s with
    lastRateLimitCleanup := now
    rateLimitMap := dropExpired s.rateLimitMap (now - l.playerKeyRateLimitWindow * 2)}

def Settings.isRateLimited (l : Settings) (s : State) (clientIp : Text) (r : Readings) : State × Bool :=
  if l.playerKeyRateLimitRequests = -1 then (s,false)
  else if clientIp = [] then (s,false)
  else
    let cleaned := l.cleanupExpiredRateLimits s r.cleaned
    match cleaned.rateLimitMap.lookup clientIp with
    | none => (cleaned,false)
    | some requestTimes =>
      let kept := trim id (r.checked - l.playerKeyRateLimitWindow) requestTimes
      ({cleaned with rateLimitMap := cleaned.rateLimitMap.insert clientIp kept},
        decide (l.playerKeyRateLimitRequests ≤ kept.length))

/-- The new map, and whether the request is in it. -/
def Settings.updateRateLimit (l : Settings) (map : RateLimitMap) (clientIp : Text) (now : Int) : RateLimitMap × Bool :=
  let push (map : RateLimitMap) := map.insert clientIp (((map.lookup clientIp).getD []) ++ [now])
  if l.playerKeyRateLimitRequests = -1 then (map,false)
  else if clientIp = [] then (map,false)
  else if clientIp ∉ map ∧ maxRateLimitEntries ≤ map.entries.length then
    let swept := dropExpired map (now - l.playerKeyRateLimitWindow * 2)
    if maxRateLimitEntries ≤ swept.entries.length then (swept,false) else (push swept,true)
  else (push map,true)

/-- `none` where the URL is too long for its buffer. -/
def Settings.authUrl (l : Settings) (key : Text) : Option Text :=
  if urlMaxLen - 100 < l.server.playerKeyAuthUrl.length then none
  else
    let url := l.server.playerKeyAuthUrl ++ ascii "?player_key=" ++ urlEncode key
    if urlMaxLen * 2 ≤ url.length then none else some url

def Settings.countRequest (l : Settings) (map : RateLimitMap) (clientIp : Option Text) (now : Int) : RateLimitMap × Bool :=
  match clientIp with
  | none => (map,false)
  | some ip => l.updateRateLimit map ip now

def Settings.startPlayerKeyValidation (l : Settings) (s : State) (key : Text) (clientIp : Option Text) (now : Int) :
    State × Option Dispatch :=
  if key ∈ s.pendingValidations then (s,none)
  else if maxPendingPlayerKeyValidations ≤ s.pendingValidations.length then (s,none)
  else
    let (rateLimitMap,counted) := l.countRequest s.rateLimitMap clientIp now
    match l.authUrl key with
    | none => ({s with rateLimitMap := rateLimitMap},none)
    | some url =>
      ({s with rateLimitMap := rateLimitMap,pendingValidations := key::s.pendingValidations},
        some ⟨clientIp,url,now,counted⟩)

def Settings.lookUp (l : Settings) (s : State) (key : Text) (clientIp : Option Text) (r : Readings) : Call :=
  let miss (s : State) : Call :=
    let (s,dispatch) := l.startPlayerKeyValidation s key clientIp r.counted
    ⟨s,.pending,false,dispatch⟩
  match s.cache.lookup key with
  | none => miss s
  | some entry =>
    if r.lookedUp < entry.expiryTime then
      if entry.isValid then ⟨s,.ok (strlcpy (cStr entry.resolvedStreamId) urlMaxLen),false,none⟩
      else ⟨s,.error,false,none⟩
    else miss {s with cache := s.cache.erase key}

def Settings.rateLimit (l : Settings) (s : State) (clientIp : Option Text) (r : Readings) : State × Bool :=
  match clientIp with
  | none => (s,false)
  | some ip => l.isRateLimited s ip r

def Settings.validatePlayerKey (l : Settings) (s : State) (key : Text) (clientIp : Option Text) (r : Readings) : Call :=
  if l.server.playerKeyAuthUrl = [] then ⟨s,.error,false,none⟩
  else if !l.server.validatePlayerKeyFormat key then ⟨s,.error,false,none⟩
  else
    let (s,limited) := l.rateLimit s clientIp r
    if limited then ⟨s,.error,true,none⟩ else l.lookUp s key clientIp r

/-- `inserted` is the reading of `insert_player_key_cache_locked`. -/
def Settings.processPlayerKeyResponse (l : Settings) (s : State) (key : Text) (response : Response) (now inserted : Int) :
    State :=
  {s with
    cache := (insertPlayerKeyCacheLocked s.cache key (responseEntry l.playerKeyCacheDuration response now) inserted).1}

def State.sweepPlayerKeyCache (s : State) (now : Int) : State :=
  if now - s.lastPlayerKeyCacheSweep < playerKeyCacheSweepInterval then s
  else {s with lastPlayerKeyCacheSweep := now,cache := purge s.cache now}

structure Processed where
  key : Text
  response : Response
  time : Int

/-- A state with the run behind it: the clock, the answers processed, the newest
first, and the requests dispatched, the oldest first. -/
structure Run where
  state : State
  clock : Int
  responses : List Processed
  dispatches : List Dispatch

def State.start : State := ⟨∅,0,∅,0,[]⟩

def Run.start (clock : Int) : Run := ⟨State.start,clock,[],[]⟩

inductive Label where
  | validate (key : Text) (clientIp : Option Text) (r : Readings)
  | process (key : Text) (response : Response) (now inserted : Int)
  /-- `drain_player_key_validations` processes an answer and forgets its request. -/
  | complete (key : Text) (response : Response) (now inserted : Int)
  | sweep (now : Int)
  /-- The map's entries in another order. -/
  | rearrange (order : KeyCache)

def Readings.From (r : Readings) (clock : Int) : Prop :=
  clock ≤ r.checked ∧ r.checked ≤ r.cleaned ∧ r.cleaned ≤ r.lookedUp ∧ r.lookedUp ≤ r.counted

instance (r : Readings) (clock : Int) : Decidable (r.From clock) := inferInstanceAs (Decidable (_ ∧ _))

def Settings.processed (l : Settings) (run : Run) (key : Text) (response : Response) (now inserted : Int) : Run :=
  {run with
    state := l.processPlayerKeyResponse run.state key response now inserted
    clock := inserted
    responses := ⟨key,response,now⟩::run.responses}

/-- The clock does not run backwards. -/
def Settings.step (l : Settings) (run : Run) : Label → Option Run
  | .validate key clientIp r =>
    if r.From run.clock then
      let call := l.validatePlayerKey run.state key clientIp r
      some {run with state := call.state,clock := r.counted,dispatches := run.dispatches ++ call.dispatch.toList}
    else none
  | .process key response now inserted =>
    if run.clock ≤ now ∧ now ≤ inserted then some (l.processed run key response now inserted) else none
  | .complete key response now inserted =>
    if run.clock ≤ now ∧ now ≤ inserted ∧ key ∈ run.state.pendingValidations then
      let run := l.processed run key response now inserted
      some {run with state := {run.state with pendingValidations := run.state.pendingValidations.erase key}}
    else none
  | .sweep now =>
    if run.clock ≤ now then some {run with state := run.state.sweepPlayerKeyCache now,clock := now} else none
  | .rearrange order =>
    if order.entries.Perm run.state.cache.entries then some {run with state := {run.state with cache := order}} else none

def Settings.machine (l : Settings) : Machine Run Label := ⟨l.step⟩

def queue (map : RateLimitMap) (clientIp : Text) : List Int := (map.lookup clientIp).getD []

@[simp] theorem queue_insert_self (map : RateLimitMap) (clientIp : Text) (times : List Int) :
    queue (map.insert clientIp times) clientIp = times := by
  rw [queue,AList.lookup_insert]
  rfl

theorem queue_insert_other (map : RateLimitMap) {clientIp other : Text} (apart : other ≠ clientIp) (times : List Int) :
    queue (map.insert clientIp times) other = queue map other := by
  rw [queue,AList.lookup_insert_ne apart]
  rfl

theorem lookup_dropExpired {map : RateLimitMap} {windowStart : Int} {clientIp : Text} {times : List Int} :
    (dropExpired map windowStart).lookup clientIp = some times ↔
      times ≠ [] ∧ ∃ before, map.lookup clientIp = some before ∧ trim id windowStart before = times := by
  have entry : ∀ (m : RateLimitMap) times, m.lookup clientIp = some times ↔ ⟨clientIp,times⟩ ∈ m.entries :=
    fun m times => AList.mem_lookup_iff
  rw [entry]
  simp only [entry]
  unfold dropExpired
  simp only [List.mem_filterMap]
  constructor
  · rintro ⟨⟨name,before⟩,member,kept⟩
    unfold keepRecent at kept
    dsimp only at kept
    split at kept
    · cases kept
    · rename_i filled
      cases kept
      exact ⟨filled,before,member,rfl⟩
  · rintro ⟨filled,before,member,rfl⟩
    refine ⟨⟨clientIp,before⟩,member,?_⟩
    unfold keepRecent
    exact if_neg filled

theorem queue_dropExpired (map : RateLimitMap) (windowStart : Int) (clientIp : Text) :
    queue (dropExpired map windowStart) clientIp = trim id windowStart (queue map clientIp) := by
  unfold queue
  cases found : map.lookup clientIp with
  | none =>
    cases swept : (dropExpired map windowStart).lookup clientIp with
    | none => rfl
    | some times =>
      obtain ⟨_,before,present,_⟩ := lookup_dropExpired.mp swept
      rw [found] at present
      cases present
  | some before =>
    by_cases empty : trim id windowStart before = []
    · cases swept : (dropExpired map windowStart).lookup clientIp with
      | none => exact empty.symm
      | some times =>
        obtain ⟨filled,other,present,trimmed⟩ := lookup_dropExpired.mp swept
        rw [found] at present
        cases present
        exact absurd (trimmed.symm.trans empty) filled
    · rw [lookup_dropExpired.mpr ⟨empty,before,found,rfl⟩]
      rfl

theorem Settings.isRateLimited_kept (l : Settings) (s : State) (clientIp : Text) (r : Readings) :
    (l.isRateLimited s clientIp r).1.cache = s.cache ∧
      (l.isRateLimited s clientIp r).1.pendingValidations = s.pendingValidations := by
  have cleaned : (l.cleanupExpiredRateLimits s r.cleaned).cache = s.cache ∧
      (l.cleanupExpiredRateLimits s r.cleaned).pendingValidations = s.pendingValidations := by
    unfold Settings.cleanupExpiredRateLimits
    split <;> exact ⟨rfl,rfl⟩
  unfold Settings.isRateLimited
  split
  · exact ⟨rfl,rfl⟩
  split
  · exact ⟨rfl,rfl⟩
  dsimp only
  split
  · exact cleaned
  · exact cleaned

theorem Settings.rateLimit_kept (l : Settings) (s : State) (clientIp : Option Text) (r : Readings) :
    (l.rateLimit s clientIp r).1.cache = s.cache ∧
      (l.rateLimit s clientIp r).1.pendingValidations = s.pendingValidations := by
  cases clientIp with
  | none => exact ⟨rfl,rfl⟩
  | some ip => exact l.isRateLimited_kept s ip r

theorem Settings.startPlayerKeyValidation_cache (l : Settings) (s : State) (key : Text) (clientIp : Option Text) (now : Int) :
    (l.startPlayerKeyValidation s key clientIp now).1.cache = s.cache := by
  unfold Settings.startPlayerKeyValidation
  split
  · rfl
  split
  · rfl
  dsimp only
  split
  · rfl
  · rfl

theorem Settings.validatePlayerKey_cache (l : Settings) (s : State) (key : Text) (clientIp : Option Text) (r : Readings) :
    (l.validatePlayerKey s key clientIp r).state.cache = s.cache ∨
      (l.validatePlayerKey s key clientIp r).state.cache = s.cache.erase key := by
  have kept := (l.rateLimit_kept s clientIp r).1
  unfold Settings.validatePlayerKey Settings.lookUp
  dsimp only
  split
  · exact Or.inl rfl
  split
  · exact Or.inl rfl
  split
  · exact Or.inl kept
  split
  · left
    dsimp only
    rw [l.startPlayerKeyValidation_cache,kept]
  split
  · split <;> exact Or.inl kept
  · right
    dsimp only
    rw [l.startPlayerKeyValidation_cache]
    exact congrArg (AList.erase key) kept

theorem Settings.validatePlayerKey_gate (l : Settings) (s : State) (key : Text) (clientIp : Option Text) (r : Readings) :
    let call := l.validatePlayerKey s key clientIp r
    (fun name => call.state.cache.lookup name,call.answer) =
      l.server.validatePlayerKey (fun name => s.cache.lookup name) key (l.rateLimit s clientIp r).2 r.lookedUp := by
  have kept := (l.rateLimit_kept s clientIp r).1
  unfold Settings.validatePlayerKey Server.validatePlayerKey
  dsimp only
  split
  · rfl
  split
  · rfl
  split
  · rw [kept]
  unfold Settings.lookUp
  rw [kept]
  cases found : s.cache.lookup key with
  | none =>
    dsimp only
    rw [l.startPlayerKeyValidation_cache,kept]
  | some entry =>
    dsimp only
    split
    · split
      · rw [kept]
      · rw [kept]
    · dsimp only
      rw [l.startPlayerKeyValidation_cache]
      refine Prod.ext ?_ rfl
      funext name
      dsimp only
      by_cases same : name = key
      · subst same
        rw [AList.lookup_erase,Function.update_self]
      · rw [AList.lookup_erase_ne same,Function.update_of_ne same]

theorem Settings.processPlayerKeyResponse_eq (l : Settings) (s : State) (tick : PlayerKeyCache.State)
    (shared : s.cache = tick.cache) (duration : l.playerKeyCacheDuration = tick.conf.playerKeyCacheDuration) (key : Text)
    (response : Response) (now : Int) :
    (l.processPlayerKeyResponse s key response now now).cache = (tick.processPlayerKeyResponse key response now).cache := by
  unfold Settings.processPlayerKeyResponse PlayerKeyCache.State.processPlayerKeyResponse
  rw [shared,duration]

theorem State.sweepPlayerKeyCache_eq (s : State) (tick : PlayerKeyCache.State) (shared : s.cache = tick.cache)
    (last : s.lastPlayerKeyCacheSweep = tick.lastPlayerKeyCacheSweep) (now : Int) :
    (s.sweepPlayerKeyCache now).cache = (tick.sweepPlayerKeyCache now).cache ∧
      (s.sweepPlayerKeyCache now).lastPlayerKeyCacheSweep = (tick.sweepPlayerKeyCache now).lastPlayerKeyCacheSweep := by
  unfold State.sweepPlayerKeyCache PlayerKeyCache.State.sweepPlayerKeyCache
  rw [last,shared]
  split
  · exact ⟨shared,last⟩
  · exact ⟨rfl,rfl⟩

theorem Settings.step_cases {l : Settings} {run next : Run} {label : Label} (stepped : l.step run label = some next) :
    (∃ key clientIp r, label = .validate key clientIp r ∧ r.From run.clock ∧ next = {run with
        state := (l.validatePlayerKey run.state key clientIp r).state
        clock := r.counted
        dispatches := run.dispatches ++ (l.validatePlayerKey run.state key clientIp r).dispatch.toList}) ∨
      (∃ key response now inserted pending,
        (label = .process key response now inserted ∨ label = .complete key response now inserted) ∧ run.clock ≤ now ∧
        now ≤ inserted ∧ next = {l.processed run key response now inserted with
          state := {(l.processed run key response now inserted).state with pendingValidations := pending}}) ∨
      (∃ now, label = .sweep now ∧ run.clock ≤ now ∧
        next = {run with state := run.state.sweepPlayerKeyCache now,clock := now}) ∨
      ∃ order, label = .rearrange order ∧ order.entries.Perm run.state.cache.entries ∧
        next = {run with state := {run.state with cache := order}} := by
  cases label with
  | validate key clientIp r =>
    simp only [Settings.step] at stepped
    split at stepped
    · rename_i readings
      cases stepped
      exact Or.inl ⟨key,clientIp,r,rfl,readings,rfl⟩
    · cases stepped
  | process key response now inserted =>
    simp only [Settings.step] at stepped
    split at stepped
    · rename_i forward
      cases stepped
      exact Or.inr (Or.inl ⟨key,response,now,inserted,run.state.pendingValidations,Or.inl rfl,forward.1,forward.2,rfl⟩)
    · cases stepped
  | complete key response now inserted =>
    simp only [Settings.step] at stepped
    split at stepped
    · rename_i forward
      cases stepped
      exact Or.inr (Or.inl ⟨key,response,now,inserted,_,Or.inr rfl,forward.1,forward.2.1,rfl⟩)
    · cases stepped
  | sweep now =>
    simp only [Settings.step] at stepped
    split at stepped
    · rename_i passed
      cases stepped
      exact Or.inr (Or.inr (Or.inl ⟨now,rfl,passed,rfl⟩))
    · cases stepped
  | rearrange order =>
    simp only [Settings.step] at stepped
    split at stepped
    · rename_i same
      cases stepped
      exact Or.inr (Or.inr (Or.inr ⟨order,rfl,same,rfl⟩))
    · cases stepped

/-- At most two requests a minute for one source; answers are kept for a minute. -/
def live : Settings :=
  ⟨⟨[ascii "play"],ascii "publish",[(ascii "live",ascii "live")],ascii "http://auth",3000,8,64,false⟩,60000,2,60000,
    by decide⟩

end SrtLiveServer.PlayerKeyValidation
