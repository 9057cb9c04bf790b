import SrtLiveServer.PlayerKeyValidation

/-! The rate limit on the webhook requests made for one source. The source's queue is
trimmed when it is checked and swept with the whole map at another cadence and a longer
horizon; at every request it still holds all the counted times of the window. -/
namespace SrtLiveServer.PlayerKeyRateLimit
open Bytes PushUrl SlidingWindow Transition PlayerKeyValidation

def countedTimes (dispatches : List Dispatch) (clientIp : Text) : List Int :=
  (dispatches.filter fun d => d.clientIp = some clientIp && d.counted).map Dispatch.time

/-- Each queue is what its history leaves behind the horizon. -/
def QueuesKeep (horizon : Int) (history : Text → List Int) (map : RateLimitMap) : Prop :=
  ∀ clientIp, Keeps id horizon (history clientIp) (queue map clientIp)

section Limiter

variable {l : Settings} {horizon : Int} {history : Text → List Int} {map : RateLimitMap} {s : State} {clientIp : Text}
  {r : Readings}

theorem QueuesKeep.later {next : Int} (keeps : QueuesKeep horizon history map) (passed : horizon ≤ next) :
    QueuesKeep next history map := fun clientIp => (keeps clientIp).later passed

theorem QueuesKeep.dropExpired (keeps : QueuesKeep horizon history map) {windowStart : Int} (behind : windowStart ≤ horizon) :
    QueuesKeep horizon history (dropExpired map windowStart) := by
  intro clientIp
  rw [queue_dropExpired]
  exact (keeps clientIp).trim behind

theorem QueuesKeep.cleanup (keeps : QueuesKeep horizon history s.rateLimitMap) {now : Int}
    (behind : now - l.playerKeyRateLimitWindow ≤ horizon) :
    QueuesKeep horizon history (l.cleanupExpiredRateLimits s now).rateLimitMap := by
  have window := l.window_nonneg
  unfold Settings.cleanupExpiredRateLimits
  split
  · exact keeps
  · exact keeps.dropExpired (by omega)

theorem isRateLimited_spec (requests : 1 ≤ l.playerKeyRateLimitRequests) (named : clientIp ≠ []) :
    let cleaned := (l.cleanupExpiredRateLimits s r.cleaned).rateLimitMap
    let checked := l.isRateLimited s clientIp r
    queue checked.1.rateLimitMap clientIp = trim id (r.checked - l.playerKeyRateLimitWindow) (queue cleaned clientIp) ∧
      (∀ other, other ≠ clientIp → queue checked.1.rateLimitMap other = queue cleaned other) ∧
      checked.2 = decide (l.playerKeyRateLimitRequests ≤ (queue checked.1.rateLimitMap clientIp).length) := by
  have limited : ¬ l.playerKeyRateLimitRequests = -1 := by omega
  unfold Settings.isRateLimited
  rw [if_neg limited,if_neg named]
  dsimp only
  cases found : (l.cleanupExpiredRateLimits s r.cleaned).rateLimitMap.lookup clientIp with
  | none =>
    have absent : queue (l.cleanupExpiredRateLimits s r.cleaned).rateLimitMap clientIp = [] := by
      rw [queue,found]
      rfl
    dsimp only
    rw [absent]
    refine ⟨rfl,fun _ _ => rfl,?_⟩
    rw [eq_comm,decide_eq_false_iff_not,List.length_nil]
    omega
  | some requestTimes =>
    have present : queue (l.cleanupExpiredRateLimits s r.cleaned).rateLimitMap clientIp = requestTimes := by
      rw [queue,found]
      rfl
    dsimp only
    rw [present,queue_insert_self]
    exact ⟨rfl,fun other apart => queue_insert_other _ apart _,rfl⟩

theorem QueuesKeep.rateLimit (keeps : QueuesKeep horizon history s.rateLimitMap)
    (requests : 1 ≤ l.playerKeyRateLimitRequests) {source : Option Text}
    (checked : r.checked - l.playerKeyRateLimitWindow ≤ horizon)
    (cleaned : r.cleaned - l.playerKeyRateLimitWindow ≤ horizon) :
    QueuesKeep horizon history (l.rateLimit s source r).1.rateLimitMap := by
  cases source with
  | none => exact keeps
  | some clientIp =>
    change QueuesKeep horizon history (l.isRateLimited s clientIp r).1.rateLimitMap
    by_cases named : clientIp = []
    · unfold Settings.isRateLimited
      rw [if_pos named,ite_self]
      exact keeps
    · obtain ⟨own,others,_⟩ := isRateLimited_spec (s := s) (r := r) requests named
      have swept := keeps.cleanup cleaned
      intro other
      by_cases same : other = clientIp
      · subst same
        rw [own]
        exact (swept other).trim checked
      · rw [others other same]
        exact swept other

/-- A request that is counted is appended to its queue; the others stay, but for a sweep. -/
theorem QueuesKeep.updateRateLimit (keeps : QueuesKeep horizon history map) (clientIp : Text) {now : Int}
    (behind : now - l.playerKeyRateLimitWindow ≤ horizon) :
    let updated := l.updateRateLimit map clientIp now
    QueuesKeep horizon (fun other => history other ++ if other = clientIp ∧ updated.2 then [now] else []) updated.1 := by
  have window := l.window_nonneg
  have push : ∀ {kept : RateLimitMap}, QueuesKeep horizon history kept →
      QueuesKeep horizon (fun other => history other ++ if other = clientIp ∧ true then [now] else [])
        (kept.insert clientIp (queue kept clientIp ++ [now])) := by
    intro kept keeps other
    dsimp only
    by_cases same : other = clientIp
    · subst same
      rw [queue_insert_self,if_pos ⟨rfl,rfl⟩]
      exact (keeps other).push now
    · rw [queue_insert_other _ same,if_neg fun both => same both.1,List.append_nil]
      exact keeps other
  have uncounted : ∀ {kept : RateLimitMap}, QueuesKeep horizon history kept →
      QueuesKeep horizon (fun other => history other ++ if other = clientIp ∧ false then [now] else []) kept := by
    intro kept keeps other
    dsimp only
    rw [if_neg fun both => Bool.false_ne_true both.2,List.append_nil]
    exact keeps other
  have early : now - l.playerKeyRateLimitWindow * 2 ≤ horizon := by omega
  have swept := keeps.dropExpired early
  unfold Settings.updateRateLimit
  dsimp only
  split
  · exact uncounted keeps
  split
  · exact uncounted keeps
  split
  · split
    · exact uncounted swept
    · exact push swept
  · exact push keeps

theorem QueuesKeep.countRequest (keeps : QueuesKeep horizon history map) (source : Option Text) {now : Int}
    (behind : now - l.playerKeyRateLimitWindow ≤ horizon) :
    let updated := l.countRequest map source now
    QueuesKeep horizon (fun other => history other ++ if some other = source ∧ updated.2 then [now] else []) updated.1 := by
  cases source with
  | none =>
    intro updated other
    dsimp only
    rw [if_neg fun both => Option.some_ne_none other both.1,List.append_nil]
    exact keeps other
  | some clientIp =>
    have updated := keeps.updateRateLimit clientIp behind
    simp only [Option.some.injEq]
    exact updated

theorem updateRateLimit_named {now : Int} (counted : (l.updateRateLimit map clientIp now).2 = true) : clientIp ≠ [] := by
  intro empty
  unfold Settings.updateRateLimit at counted
  dsimp only at counted
  rw [if_pos empty,ite_self] at counted
  cases counted

end Limiter

theorem countedTimes_snoc (dispatches : List Dispatch) (d : Dispatch) (clientIp : Text) :
    countedTimes (dispatches ++ [d]) clientIp =
      countedTimes dispatches clientIp ++ if some clientIp = d.clientIp ∧ d.counted = true then [d.time] else [] := by
  unfold countedTimes
  rw [List.filter_append,List.map_append]
  congr 1
  by_cases own : some clientIp = d.clientIp ∧ d.counted = true
  · rw [if_pos own,List.filter_cons_of_pos (by simp [own.1.symm,own.2])]
    rfl
  · rw [if_neg own,List.filter_cons_of_neg]
    · rfl
    · intro met
      simp only [Bool.and_eq_true,decide_eq_true_eq] at met
      exact own ⟨met.1.symm,met.2⟩

theorem startPlayerKeyValidation_cases (l : Settings) (s : State) {key : Text} (clientIp : Option Text) (now : Int)
    (fits : (l.authUrl key).isSome = true) :
    let started := l.startPlayerKeyValidation s key clientIp now
    let updated := l.countRequest s.rateLimitMap clientIp now
    (started.2 = none ∧ started.1.rateLimitMap = s.rateLimitMap) ∨
      ∃ url, started.2 = some ⟨clientIp,url,now,updated.2⟩ ∧ started.1.rateLimitMap = updated.1 := by
  unfold Settings.startPlayerKeyValidation
  dsimp only
  split
  · exact Or.inl ⟨rfl,rfl⟩
  split
  · exact Or.inl ⟨rfl,rfl⟩
  obtain ⟨url,found⟩ := Option.isSome_iff_exists.mp fits
  rw [found]
  exact Or.inr ⟨url,rfl,rfl⟩

/-- What a call does beside the cache: it is over before the limiter is asked; it dispatches
nothing; or the limiter lets it pass and a request is counted and dispatched. -/
theorem validatePlayerKey_cases (l : Settings) (s : State) {key : Text} (clientIp : Option Text) (r : Readings)
    (short : l.server.validatePlayerKeyFormat key = true → (l.authUrl key).isSome = true) :
    let call := l.validatePlayerKey s key clientIp r
    let checked := l.rateLimit s clientIp r
    let updated := l.countRequest checked.1.rateLimitMap clientIp r.counted
    (call.dispatch = none ∧ call.limited = false ∧ call.state.rateLimitMap = s.rateLimitMap) ∨
      (call.dispatch = none ∧ (call.limited = true → checked.2 = true) ∧
        call.state.rateLimitMap = checked.1.rateLimitMap) ∨
      (checked.2 = false ∧ call.limited = false ∧ call.state.rateLimitMap = updated.1 ∧
        ∃ url, call.dispatch = some ⟨clientIp,url,r.counted,updated.2⟩) := by
  unfold Settings.validatePlayerKey
  dsimp only
  split
  · exact Or.inl ⟨rfl,rfl,rfl⟩
  split
  · exact Or.inl ⟨rfl,rfl,rfl⟩
  rename_i form
  have fits := short (by simpa using form)
  right
  split
  · rename_i limited
    exact Or.inl ⟨rfl,fun _ => limited,rfl⟩
  rename_i passed
  have passed : (l.rateLimit s clientIp r).2 = false := eq_false_of_ne_true passed
  unfold Settings.lookUp
  dsimp only
  split
  · rcases startPlayerKeyValidation_cases l (l.rateLimit s clientIp r).1 clientIp r.counted fits with
      ⟨none,kept⟩ | ⟨url,dispatched,counted⟩
    · exact Or.inl ⟨none,fun limited => absurd limited Bool.false_ne_true,kept⟩
    · exact Or.inr ⟨passed,rfl,counted,url,dispatched⟩
  split
  · split <;> exact Or.inl ⟨rfl,fun limited => absurd limited Bool.false_ne_true,rfl⟩
  · rcases startPlayerKeyValidation_cases l {(l.rateLimit s clientIp r).1 with
        cache := (l.rateLimit s clientIp r).1.cache.erase key} clientIp r.counted fits with
      ⟨none,kept⟩ | ⟨url,dispatched,counted⟩
    · exact Or.inl ⟨none,fun limited => absurd limited Bool.false_ne_true,kept⟩
    · exact Or.inr ⟨passed,rfl,counted,url,dispatched⟩

structure Limited (l : Settings) (run : Run) : Prop where
  ordered : Ordered Dispatch.time run.dispatches
  past : ∀ d ∈ run.dispatches, d.time ≤ run.clock
  keeps : QueuesKeep (run.clock - l.playerKeyRateLimitWindow) (countedTimes run.dispatches) run.state.rateLimitMap
  paced : ∀ clientIp,
    Paced id l.playerKeyRateLimitWindow l.playerKeyRateLimitRequests.toNat (countedTimes run.dispatches clientIp)

variable {l : Settings} {run : Run}

theorem Limited.start (clock : Int) : Limited l (Run.start clock) where
  ordered := List.Pairwise.nil
  past := fun _ member => by cases member
  keeps := fun _ => Keeps.refl
  paced := fun _ => Paced.nil

theorem Limited.later (limited : Limited l run) {next : Run} (passed : run.clock ≤ next.clock)
    (same : next.dispatches = run.dispatches)
    (keeps : QueuesKeep (next.clock - l.playerKeyRateLimitWindow) (countedTimes run.dispatches) next.state.rateLimitMap) :
    Limited l next where
  ordered := by
    rw [same]
    exact limited.ordered
  past := by
    rw [same]
    exact fun d member => Int.le_trans (limited.past d member) passed
  keeps := by
    rw [same]
    exact keeps
  paced := by
    rw [same]
    exact limited.paced

/-- The limiter lets a source pass only if fewer than the limit were counted for it in the window. -/
theorem rateLimit_room (requests : 1 ≤ l.playerKeyRateLimitRequests) {s : State} {clientIp : Text} {r : Readings}
    {now : Int} {history : Text → List Int} (named : clientIp ≠ [])
    (passed : (l.rateLimit s (some clientIp) r).2 = false)
    (keeps : QueuesKeep (now - l.playerKeyRateLimitWindow) history (l.rateLimit s (some clientIp) r).1.rateLimitMap) :
    (within id (now - l.playerKeyRateLimitWindow) now (history clientIp)).length < l.playerKeyRateLimitRequests.toNat := by
  have count := (isRateLimited_spec (s := s) (r := r) requests named).2.2
  change (l.rateLimit s (some clientIp) r).2 = decide (l.playerKeyRateLimitRequests ≤
    (queue (l.rateLimit s (some clientIp) r).1.rateLimitMap clientIp).length) at count
  rw [passed,eq_comm,decide_eq_false_iff_not] at count
  rw [(keeps clientIp).within (Int.le_refl _)]
  have shorter := List.length_filter_le (fun t => decide (now - l.playerKeyRateLimitWindow ≤ id t ∧ id t ≤ now))
    (queue (l.rateLimit s (some clientIp) r).1.rateLimitMap clientIp)
  unfold within
  omega

theorem Readings.From.counted_ge {r : Readings} {clock : Int} (readings : r.From clock) :
    clock ≤ r.counted ∧ r.checked ≤ r.counted ∧ r.cleaned ≤ r.counted := by
  obtain ⟨checked,cleaned,lookedUp,counted⟩ := readings
  refine ⟨?_,?_,?_⟩ <;> omega

theorem Limited.validate (limited : Limited l run) (requests : 1 ≤ l.playerKeyRateLimitRequests) {key : Text}
    (short : l.server.validatePlayerKeyFormat key = true → (l.authUrl key).isSome = true) {clientIp : Option Text}
    {r : Readings} (readings : r.From run.clock) :
    let call := l.validatePlayerKey run.state key clientIp r
    Limited l {run with
      state := call.state
      clock := r.counted
      dispatches := run.dispatches ++ call.dispatch.toList} := by
  obtain ⟨forward,checkedFirst,cleanedFirst⟩ := Readings.From.counted_ge readings
  have before : QueuesKeep (r.counted - l.playerKeyRateLimitWindow) (countedTimes run.dispatches) run.state.rateLimitMap :=
    limited.keeps.later (by omega)
  have checked : QueuesKeep (r.counted - l.playerKeyRateLimitWindow) (countedTimes run.dispatches)
      (l.rateLimit run.state clientIp r).1.rateLimitMap := before.rateLimit requests (by omega) (by omega)
  rcases validatePlayerKey_cases l run.state clientIp r short with
    ⟨none,_,kept⟩ | ⟨none,_,kept⟩ | ⟨passed,_,kept,url,dispatched⟩
  · apply limited.later forward
    · rw [none]
      exact List.append_nil _
    · rw [kept]
      exact before
  · apply limited.later forward
    · rw [none]
      exact List.append_nil _
    · rw [kept]
      exact checked
  · dsimp only
    rw [dispatched,Option.toList_some]
    have updated := checked.countRequest clientIp (Int.le_refl (r.counted - l.playerKeyRateLimitWindow))
    refine ⟨limited.ordered.snoc fun d member => Int.le_trans (limited.past d member) forward,?_,?_,?_⟩
    · intro d member
      rcases List.mem_append.mp member with old | new
      · exact Int.le_trans (limited.past d old) forward
      · cases List.mem_singleton.mp new
        exact Int.le_refl r.counted
    · intro other
      rw [countedTimes_snoc,kept]
      exact updated other
    · intro other
      rw [countedTimes_snoc]
      split
      · rename_i own
        obtain ⟨rfl,counted⟩ := own
        have named := updateRateLimit_named counted
        exact Paced.snoc (limited.paced other) (rateLimit_room requests named passed checked)
      · rw [List.append_nil]
        exact limited.paced other

theorem step_limited (requests : 1 ≤ l.playerKeyRateLimitRequests)
    (short : ∀ key, l.server.validatePlayerKeyFormat key = true → (l.authUrl key).isSome = true) :
    l.machine.Keeps (fun _ _ => True) (Limited l) := by
  intro run label next limited _ stepped
  rcases Settings.step_cases stepped with ⟨key,clientIp,r,_,readings,rfl⟩ |
    ⟨key,response,now,inserted,pending,_,read,later,rfl⟩ | ⟨now,_,passed,rfl⟩ | ⟨order,_,_,rfl⟩
  · exact limited.validate requests (short key) readings
  · have passed : run.clock ≤ inserted := Int.le_trans read later
    exact limited.later passed rfl (limited.keeps.later (Int.sub_le_sub_right passed _))
  · have kept : (run.state.sweepPlayerKeyCache now).rateLimitMap = run.state.rateLimitMap := by
      unfold State.sweepPlayerKeyCache
      split <;> rfl
    have keeps := limited.keeps.later (Int.sub_le_sub_right passed l.playerKeyRateLimitWindow)
    rw [← kept] at keeps
    exact limited.later passed rfl keeps
  · exact limited.later (Int.le_refl _) rfl limited.keeps

theorem within_countedTimes (low high : Int) (dispatches : List Dispatch) (clientIp : Text) :
    (within id low high (countedTimes dispatches clientIp)).length =
      (within Dispatch.time low high (dispatches.filter fun d => d.clientIp = some clientIp && d.counted)).length := by
  unfold within countedTimes
  rw [List.filter_map,List.length_map]
  rfl

/-- A source all of whose requests were counted never has more than the limit in one window. -/
theorem Limited.bound (limited : Limited l run) (requests : 1 ≤ l.playerKeyRateLimitRequests) {clientIp : Text}
    (tracked : ∀ d ∈ run.dispatches, d.clientIp = some clientIp → d.counted = true) (t : Int) :
    (within Dispatch.time (t - l.playerKeyRateLimitWindow) t
      (run.dispatches.filter fun d => d.clientIp = some clientIp)).length ≤ l.playerKeyRateLimitRequests := by
  have ordered : Ordered id (countedTimes run.dispatches clientIp) :=
    List.pairwise_map.mpr (limited.ordered.sublist List.filter_sublist)
  have bound := (limited.paced clientIp).bound ordered t
  rw [within_countedTimes] at bound
  have all : (run.dispatches.filter fun d => d.clientIp = some clientIp && d.counted) =
      run.dispatches.filter fun d => d.clientIp = some clientIp := by
    apply List.filter_congr
    intro d member
    by_cases own : d.clientIp = some clientIp
    · rw [tracked d member own,Bool.and_true]
    · rw [decide_eq_false own,Bool.false_and]
  rw [all] at bound
  omega

/-- A source refused as rate limited has the limit of requests in the window that ends now. -/
theorem Limited.refused (limited : Limited l run) (requests : 1 ≤ l.playerKeyRateLimitRequests) {clientIp : Option Text}
    {r : Readings} (readings : r.From run.clock) (full : (l.rateLimit run.state clientIp r).2 = true) :
    l.playerKeyRateLimitRequests ≤ (within Dispatch.time (r.checked - l.playerKeyRateLimitWindow) r.checked
      (run.dispatches.filter fun d => d.clientIp = clientIp)).length := by
  cases clientIp with
  | none => cases full
  | some clientIp =>
    have named : clientIp ≠ [] := by
      intro empty
      change (l.isRateLimited run.state clientIp r).2 = true at full
      unfold Settings.isRateLimited at full
      rw [if_pos empty,ite_self] at full
      cases full
    obtain ⟨own,_,count⟩ := isRateLimited_spec (s := run.state) (r := r) requests named
    obtain ⟨forward,checkedFirst,cleanedFirst⟩ := Readings.From.counted_ge readings
    have before : QueuesKeep (r.counted - l.playerKeyRateLimitWindow) (countedTimes run.dispatches)
        run.state.rateLimitMap := limited.keeps.later (by omega)
    have cleanup : r.cleaned - l.playerKeyRateLimitWindow ≤ r.counted - l.playerKeyRateLimitWindow := by omega
    have ordered : Ordered id (countedTimes run.dispatches clientIp) :=
      List.pairwise_map.mpr (limited.ordered.sublist List.filter_sublist)
    have past : ∀ t ∈ countedTimes run.dispatches clientIp, t ≤ r.checked := by
      intro t member
      obtain ⟨d,inside,rfl⟩ := List.mem_map.mp member
      exact Int.le_trans (limited.past d (List.mem_of_mem_filter inside)) readings.1
    change (l.isRateLimited run.state clientIp r).2 = true at full
    rw [full,eq_comm,decide_eq_true_eq,own] at count
    have inWindow := (before.cleanup cleanup clientIp).trim_length ordered (r.checked - l.playerKeyRateLimitWindow) past
    have fewer : (run.dispatches.filter fun d => d.clientIp = some clientIp && d.counted).Sublist
        (run.dispatches.filter fun d => d.clientIp = some clientIp) := by
      rw [← List.filter_filter]
      exact List.filter_sublist.filter _
    have all : (within Dispatch.time (r.checked - l.playerKeyRateLimitWindow) r.checked
          (run.dispatches.filter fun d => d.clientIp = some clientIp && d.counted)).length ≤
        (within Dispatch.time (r.checked - l.playerKeyRateLimitWindow) r.checked
          (run.dispatches.filter fun d => d.clientIp = some clientIp)).length := (fewer.filter _).length_le
    rw [← within_countedTimes] at all
    exact Int.le_trans count (Int.ofNat_le.mpr (Nat.le_trans inWindow all))

theorem urlEncode_length (value : Text) : (urlEncode value).length ≤ 3 * value.length := by
  induction value with
  | nil => exact Nat.le_refl 0
  | cons b rest ih =>
    have more : (urlEncode (b::rest)).length ≤ 3 + (urlEncode rest).length := by
      unfold urlEncode
      rw [List.flatMap_cons,List.length_append]
      split
      · exact Nat.add_le_add_right (Nat.le_add_left 1 2) _
      · exact Nat.le_refl _
    rw [List.length_cons]
    omega

/-- A base URL within its bound leaves room for every key the parser's ranges admit. -/
theorem authUrl_fits {l : Settings} (base : l.server.playerKeyAuthUrl.length ≤ urlMaxLen - 100)
    (longest : l.server.playerKeyMaxLength ≤ 256) {key : Text} (form : l.server.validatePlayerKeyFormat key = true) :
    (l.authUrl key).isSome = true := by
  have size : urlMaxLen = 2048 := rfl
  have query : (ascii "?player_key=").length = 12 := rfl
  have encoded := urlEncode_length key
  have length : key.length ≤ l.server.playerKeyMaxLength := by
    unfold PlayerKeyGate.Server.validatePlayerKeyFormat at form
    rw [Bool.and_eq_true,decide_eq_true_eq] at form
    exact form.1.2
  have fits : ¬ urlMaxLen * 2 ≤ (l.server.playerKeyAuthUrl ++ ascii "?player_key=" ++ urlEncode key).length := by
    simp only [List.length_append,query]
    omega
  unfold Settings.authUrl
  rw [if_neg (Nat.not_lt_of_le base)]
  dsimp only
  rw [if_neg fits]
  rfl

/-- In every run of the listener with a positive limit and webhook URLs that fit: a source
whose requests were all counted has at most the limit of them in any window, and a
source with fewer is not refused as rate limited. -/
theorem dispatches_within_limit (l : Settings) (requests : 1 ≤ l.playerKeyRateLimitRequests)
    (short : ∀ key, l.server.validatePlayerKeyFormat key = true → (l.authUrl key).isSome = true) {clock : Int}
    {labels : List Label} {run : Run} (ran : l.machine.run (Run.start clock) labels = some run) :
    (∀ clientIp, (∀ d ∈ run.dispatches, d.clientIp = some clientIp → d.counted = true) → ∀ t,
      (within Dispatch.time (t - l.playerKeyRateLimitWindow) t
        (run.dispatches.filter fun d => d.clientIp = some clientIp)).length ≤ l.playerKeyRateLimitRequests) ∧
      ∀ key clientIp r, r.From run.clock →
        (within Dispatch.time (r.checked - l.playerKeyRateLimitWindow) r.checked
          (run.dispatches.filter fun d => d.clientIp = clientIp)).length < l.playerKeyRateLimitRequests →
        (l.validatePlayerKey run.state key clientIp r).limited = false := by
  have limited := (step_limited requests short).run_all (Limited.start clock) ran
  refine ⟨fun clientIp tracked t => limited.bound requests tracked t,?_⟩
  intro key clientIp r readings few
  by_contra refused
  have full : (l.rateLimit run.state clientIp r).2 = true := by
    rcases validatePlayerKey_cases l run.state clientIp r (short key) with
      ⟨_,passed,_⟩ | ⟨_,asked,_⟩ | ⟨_,passed,_⟩
    · exact absurd passed refused
    · exact asked (eq_true_of_ne_false refused)
    · exact absurd passed refused
  have many := limited.refused requests readings full
  omega

def request (key : Text) (time : Int) : Label := .validate key (some (ascii "10.0.0.1")) ⟨time,time,time,time⟩

def threeRequests : List Label := [request (ascii "key12345") 0,request (ascii "key23456") 10,request (ascii "key34567") 20]

theorem dispatches_within_limit_three_requests :
    ∃ run, live.machine.run (Run.start 0) threeRequests = some run ∧ run.dispatches.length = 2 ∧
      (within Dispatch.time (20 - 60000) 20
        (run.dispatches.filter fun d => d.clientIp = some (ascii "10.0.0.1"))).length ≤ (2 : Int) := by
  have counts : ((live.machine.run (Run.start 0) threeRequests).map fun run =>
      (run.dispatches.length,run.dispatches.all Dispatch.counted)) = some (2,true) := by decide
  obtain ⟨run,ran,met⟩ := Option.map_eq_some_iff.mp counts
  obtain ⟨length,counted⟩ := Prod.mk.inj met
  rw [List.all_eq_true] at counted
  have fits : ∀ key, live.server.validatePlayerKeyFormat key = true → (live.authUrl key).isSome = true :=
    fun _ form => authUrl_fits (by decide) (by decide) form
  exact ⟨run,ran,length,
    (dispatches_within_limit live (by decide) fits ran).1 (ascii "10.0.0.1") (fun d member _ => counted d member) 20⟩

end SrtLiveServer.PlayerKeyRateLimit
