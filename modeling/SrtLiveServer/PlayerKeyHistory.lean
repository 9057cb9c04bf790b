import SrtLiveServer.ExpiryMap
import SrtLiveServer.PlayerKeyValidation

/-! The player-key cache against the answers processed. Entries leave it when they are
found expired, by sweeps and by evictions; what is left is the last answer for its key,
for as long as that kind of answer is kept. -/
namespace SrtLiveServer.PlayerKeyHistory
open Bytes ExpiryMap Transition PlayerKeyValidation
open PlayerKeyCache hiding State
open PlayerKeyGate (CacheEntry Validation)

/-- The stream an answer names, if it is one to be cached as valid. -/
def named (response : Response) : Option Text :=
  match response.body with
  | .object (some streamId) _ =>
    if response.success = true ∧ response.statusCode = 200 ∧ streamId ≠ [] ∧ streamId.length < urlMaxLen then some streamId
    else none
  | _ => none

def lastResponse (responses : List Processed) (key : Text) : Option Processed := responses.find? fun p => p.key = key

/-- The call gets as far as the cache. -/
structure Asks (l : Settings) (run : Run) (key : Text) (clientIp : Option Text) (r : Readings) : Prop where
  readings : r.From run.clock
  enabled : l.server.playerKeyAuthUrl ≠ []
  form : l.server.validatePlayerKeyFormat key = true
  unlimited : (l.validatePlayerKey run.state key clientIp r).limited = false

def FreshlyNamed (l : Settings) (run : Run) (key : Text) (now : Int) (stream : Text) : Prop :=
  ∃ p, lastResponse run.responses key = some p ∧ named p.response = some stream ∧ p.time ≤ now ∧
    now - p.time ≤ l.playerKeyCacheDuration

def FreshlyRefused (l : Settings) (run : Run) (key : Text) (now : Int) : Prop :=
  ∃ p, lastResponse run.responses key = some p ∧ named p.response = none ∧ p.time ≤ now ∧
    4 * (now - p.time) ≤ l.playerKeyCacheDuration

/-- Processing an answer for `key` loses the unexpired entry of another key. -/
structure Evicts (l : Settings) (s : State) (key : Text) (response : Response) (now inserted : Int) (other : Text)
    (entry : CacheEntry) : Prop where
  apart : other ≠ key
  found : s.cache.lookup other = some entry
  unexpired : inserted < entry.expiryTime
  gone : (l.processPlayerKeyResponse s key response now inserted).cache.lookup other = none

/-- What a state's cache owes to the answers processed before it. -/
structure CacheLaw (l : Settings) (run : Run) : Prop where
  bounded : run.state.cache.entries.length ≤ maxPlayerKeyCacheEntries
  ok : ∀ key clientIp r stream, Asks l run key clientIp r →
    (l.validatePlayerKey run.state key clientIp r).answer = .ok stream → FreshlyNamed l run key r.lookedUp stream
  error : ∀ key clientIp r, Asks l run key clientIp r →
    (l.validatePlayerKey run.state key clientIp r).answer = .error → FreshlyRefused l run key r.lookedUp
  pending : ∀ key clientIp r, Asks l run key clientIp r → (∀ stream, ¬ FreshlyNamed l run key r.lookedUp stream) →
    ¬ FreshlyRefused l run key r.lookedUp → (l.validatePlayerKey run.state key clientIp r).answer = .pending
  evicts : ∀ key response now inserted other entry, run.clock ≤ now → now ≤ inserted →
    Evicts l run.state key response now inserted other entry →
    run.state.cache.entries.length = maxPlayerKeyCacheEntries ∧
      (∀ name kept, run.state.cache.lookup name = some kept →
        inserted < kept.expiryTime ∧ entry.expiryTime ≤ kept.expiryTime) ∧
      ∀ name kept, Evicts l run.state key response now inserted name kept → name = other

/-- The streams an answer names hold no NUL, as far as they are cached. -/
def Plain : Label → Prop
  | .process _ response _ _ => ∀ stream, named response = some stream → (0 : UInt8) ∉ stream
  | .complete _ response _ _ => ∀ stream, named response = some stream → (0 : UInt8) ∉ stream
  | _ => True

theorem responseEntry_named {response : Response} {stream : Text} (names : named response = some stream)
    (duration now : Int) :
    stream.length < urlMaxLen ∧ (responseEntry duration response now).isValid = true ∧
      (responseEntry duration response now).resolvedStreamId = stream ∧
      (responseEntry duration response now).expiryTime = now + duration := by
  unfold named at names
  split at names
  · rename_i streamId maxPlayers body
    split at names
    · rename_i accepted
      cases names
      obtain ⟨success,status,filled,short⟩ := accepted
      exact ⟨short,responseEntry_valid success status body filled short duration now⟩
    · cases names
  · cases names

theorem responseEntry_refused {response : Response} (names : named response = none) (duration now : Int) :
    (responseEntry duration response now).isValid = false ∧
      (responseEntry duration response now).expiryTime = now + duration / 4 := by
  unfold named at names
  unfold responseEntry
  dsimp only
  split
  · exact ⟨rfl,rfl⟩
  rename_i success
  split
  · exact ⟨rfl,rfl⟩
  rename_i status
  split
  · exact ⟨rfl,rfl⟩
  · exact ⟨rfl,rfl⟩
  rename_i streamId maxPlayers body
  rw [body] at names
  dsimp only at names
  split
  · exact ⟨rfl,rfl⟩
  · rename_i accepted
    rw [not_or,Nat.not_le] at accepted
    rw [if_pos ⟨by simpa using success,by simpa using status,accepted.1,accepted.2⟩] at names
    cases names

theorem victim_spec {entries : List (Sigma fun _ : Text => CacheEntry)} {key : Text} (chosen : victim entries = some key) :
    ∃ entry ∈ entries, entry.1 = key ∧ ∀ other ∈ entries, entry.2.expiryTime ≤ other.2.expiryTime := by
  cases entries with
  | nil => cases chosen
  | cons first rest =>
    have alone : ∀ other ∈ [first], first.2.expiryTime ≤ other.2.expiryTime := by
      intro other member
      cases List.mem_singleton.mp member
      exact Int.le_refl _
    have least := least_foldl (fun entry : Sigma fun _ : Text => CacheEntry => entry.2.expiryTime) rest [first] first
      (List.mem_singleton_self _) alone
    exact ⟨_,least.1,Option.some.inj chosen,least.2⟩

theorem purge_sublist (cache : KeyCache) (now : Int) : (purge cache now).entries.Sublist cache.entries := by
  unfold purge
  apply List.foldlRecOn (motive := fun met : KeyCache => met.entries.Sublist cache.entries) _ _ (List.Sublist.refl _)
  intro met smaller entry _
  split
  · exact (List.kerase_sublist entry.1 met.entries).trans smaller
  · exact smaller

section Insert

variable {cache : KeyCache} (sized : cache.entries.length ≤ maxPlayerKeyCacheEntries) {key : Text} {fresh : CacheEntry}
  {now : Int}

include sized

theorem insert_length : (insertPlayerKeyCacheLocked cache key fresh now).1.entries.length ≤ maxPlayerKeyCacheEntries := by
  have absent : key ∉ cache → key ∉ purge cache now := by
    intro absent
    rw [← AList.lookup_eq_none,lookup_purge,AList.lookup_eq_none.mpr absent]
    rfl
  rcases @insert_cases cache key fresh now with
    ⟨present | room,inserted⟩ | ⟨missing,room,inserted⟩ | ⟨missing,_,evicted,chosen,inserted⟩
  · rw [inserted,insert_length_present present]
    exact sized
  · rw [inserted]
    by_cases present : key ∈ cache
    · rw [insert_length_present present]
      exact sized
    · rw [insert_length_fresh present]
      omega
  · rw [inserted,insert_length_fresh (absent missing)]
    omega
  · obtain ⟨entry,member,rfl,_⟩ := victim_spec chosen
    have rest := (erase_perm member).length_eq
    have smaller := (purge_sublist cache now).length_le
    have gone : key ∉ (purge cache now).erase entry.1 := fun inside => absent missing (AList.mem_erase.mp inside).2
    rw [inserted,insert_length_fresh gone]
    rw [List.length_cons] at rest
    omega

/-- An insertion that loses another key's unexpired entry met a cache full of unexpired
entries and took one with the smallest expiry. -/
theorem insert_evicts {other : Text} {entry : CacheEntry} (apart : other ≠ key) (found : cache.lookup other = some entry)
    (unexpired : now < entry.expiryTime)
    (gone : (insertPlayerKeyCacheLocked cache key fresh now).1.lookup other = none) :
    cache.entries.length = maxPlayerKeyCacheEntries ∧
      (∀ name kept, cache.lookup name = some kept → now < kept.expiryTime ∧ entry.expiryTime ≤ kept.expiryTime) ∧
      victim (purge cache now).entries = some other := by
  have stays := purge_live found unexpired
  rcases @insert_cases cache key fresh now with ⟨_,inserted⟩ | ⟨_,_,inserted⟩ | ⟨_,full,evicted,chosen,inserted⟩
  · rw [inserted,AList.lookup_insert_ne apart,found] at gone
    cases gone
  · rw [inserted,AList.lookup_insert_ne apart,stays] at gone
    cases gone
  · obtain ⟨least,member,rfl,smallest⟩ := victim_spec chosen
    rw [inserted,AList.lookup_insert_ne apart] at gone
    have own : other = least.1 := by
      by_contra differs
      rw [AList.lookup_erase_ne differs,stays] at gone
      cases gone
    -- nothing was purged, so everything cached is unexpired
    have whole : (purge cache now).entries = cache.entries :=
      (purge_sublist cache now).eq_of_length_le (Nat.le_trans sized full)
    have bound := (purge_sublist cache now).length_le
    subst own
    have same : least.2 = entry := by
      have lookup := AList.mem_lookup_iff.mpr member
      rw [stays] at lookup
      exact (Option.some.inj lookup).symm
    refine ⟨by omega,?_,chosen⟩
    intro name kept present
    have inside : ⟨name,kept⟩ ∈ (purge cache now).entries := by
      rw [whole]
      exact AList.mem_lookup_iff.mp present
    have alive := AList.mem_lookup_iff.mpr inside
    rw [lookup_purge] at alive
    have unexpired := (Option.filter_eq_some_iff.mp alive).2
    have order := smallest _ inside
    rw [same] at order
    exact ⟨of_decide_eq_true unexpired,order⟩

end Insert

/-- Every entry is the last answer for its key. -/
structure Faithful (l : Settings) (run : Run) : Prop where
  sized : run.state.cache.entries.length ≤ maxPlayerKeyCacheEntries
  past : ∀ p ∈ run.responses, p.time ≤ run.clock
  plain : ∀ p ∈ run.responses, ∀ stream, named p.response = some stream → (0 : UInt8) ∉ stream
  answered : ∀ key entry, run.state.cache.lookup key = some entry →
    ∃ p, lastResponse run.responses key = some p ∧ entry = responseEntry l.playerKeyCacheDuration p.response p.time

variable {l : Settings} {run : Run}

theorem Faithful.start (clock : Int) : Faithful l (Run.start clock) where
  sized := Nat.zero_le _
  past := fun _ member => by cases member
  plain := fun _ member => by cases member
  answered := fun _ _ found => by cases found

theorem Faithful.shrinks (faithful : Faithful l run) {next : Run} (passed : run.clock ≤ next.clock)
    (same : next.responses = run.responses) (smaller : next.state.cache.entries.length ≤ run.state.cache.entries.length)
    (kept : ∀ key entry, next.state.cache.lookup key = some entry → run.state.cache.lookup key = some entry) :
    Faithful l next where
  sized := Nat.le_trans smaller faithful.sized
  past := by
    rw [same]
    exact fun p member => Int.le_trans (faithful.past p member) passed
  plain := by
    rw [same]
    exact faithful.plain
  answered := by
    rw [same]
    exact fun key entry found => faithful.answered key entry (kept key entry found)

theorem Faithful.processed (faithful : Faithful l run) {key : Text} {response : Response} {now inserted : Int}
    (plain : ∀ stream, named response = some stream → (0 : UInt8) ∉ stream) (read : run.clock ≤ now)
    (later : now ≤ inserted) : Faithful l (l.processed run key response now inserted) where
  sized := insert_length faithful.sized
  past := by
    intro p member
    rcases List.mem_cons.mp member with rfl | old
    · exact later
    · exact Int.le_trans (faithful.past p old) (Int.le_trans read later)
  plain := by
    intro p member
    rcases List.mem_cons.mp member with rfl | old
    · exact plain
    · exact faithful.plain p old
  answered := by
    intro name entry found
    by_cases same : name = key
    · subst same
      change (insertPlayerKeyCacheLocked _ _ _ _).1.lookup _ = _ at found
      rw [insert_self] at found
      exact ⟨_,List.find?_cons_of_pos (decide_eq_true rfl),(Option.some.inj found).symm⟩
    · obtain ⟨p,last,entryEq⟩ := faithful.answered name entry (insert_other same found)
      have skipped : lastResponse (⟨key,response,now⟩::run.responses) name = lastResponse run.responses name :=
        List.find?_cons_of_neg (by simpa using fun own : key = name => same own.symm)
      exact ⟨p,skipped.trans last,entryEq⟩

theorem step_faithful : l.machine.Keeps (fun _ label => Plain label) (Faithful l) := by
  intro run label next faithful plain stepped
  rcases Settings.step_cases stepped with ⟨key,clientIp,r,rfl,readings,rfl⟩ |
    ⟨key,response,now,inserted,pending,own,read,later,rfl⟩ | ⟨now,rfl,passed,rfl⟩ | ⟨order,rfl,same,rfl⟩
  · have forward : run.clock ≤ r.counted := by
      obtain ⟨checked,cleaned,lookedUp,counted⟩ := readings
      omega
    refine faithful.shrinks forward rfl ?_ ?_
    · rcases l.validatePlayerKey_cache run.state key clientIp r with same | erased
      · exact Nat.le_of_eq (congrArg (fun cache : KeyCache => cache.entries.length) same)
      · dsimp only
        rw [erased]
        exact erase_length _ _
    · intro name entry found
      dsimp only at found
      rcases l.validatePlayerKey_cache run.state key clientIp r with same | erased
      · rwa [same] at found
      · rw [erased] at found
        exact erase_lookup found
  · have plain : ∀ stream, named response = some stream → (0 : UInt8) ∉ stream := by
      rcases own with rfl | rfl
      · exact plain
      · exact plain
    exact (faithful.processed plain read later).shrinks (Int.le_refl _) rfl (Nat.le_refl _) fun _ _ found => found
  · refine faithful.shrinks passed rfl ?_ ?_
    · unfold PlayerKeyValidation.State.sweepPlayerKeyCache
      split
      · exact Nat.le_refl _
      · exact (purge_sublist _ _).length_le
    · intro name entry found
      unfold PlayerKeyValidation.State.sweepPlayerKeyCache at found
      split at found
      · exact found
      · exact purge_lookup now found
  · refine faithful.shrinks (Int.le_refl _) rfl (Nat.le_of_eq same.length_eq) ?_
    intro name entry found
    rwa [← AList.perm_lookup same]

theorem Asks.passed {key : Text} {clientIp : Option Text} {r : Readings} (asks : Asks l run key clientIp r) :
    (l.rateLimit run.state clientIp r).2 = false := by
  have unlimited := asks.unlimited
  unfold Settings.validatePlayerKey at unlimited
  rw [if_neg asks.enabled,asks.form,if_neg (by decide)] at unlimited
  dsimp only at unlimited
  split at unlimited
  · cases unlimited
  · exact eq_false_of_ne_true ‹_›

theorem Asks.answer {key : Text} {clientIp : Option Text} {r : Readings} (asks : Asks l run key clientIp r) :
    (l.validatePlayerKey run.state key clientIp r).answer =
      match (run.state.cache.lookup key).filter fun entry => r.lookedUp < entry.expiryTime with
      | some entry => if entry.isValid then .ok (strlcpy (cStr entry.resolvedStreamId) urlMaxLen) else .error
      | none => .pending := by
  have gate := congrArg Prod.snd (l.validatePlayerKey_gate run.state key clientIp r)
  dsimp only at gate
  rw [gate,asks.passed]
  unfold PlayerKeyGate.Server.validatePlayerKey
  rw [if_neg asks.enabled,asks.form,if_neg (by decide),if_neg (by decide)]
  dsimp only
  cases run.state.cache.lookup key with
  | none => rfl
  | some entry =>
    dsimp only
    rw [Option.filter_some]
    by_cases unexpired : r.lookedUp < entry.expiryTime
    · rw [if_pos unexpired,if_pos (decide_eq_true unexpired)]
      dsimp only
      split <;> rfl
    · rw [if_neg unexpired,decide_eq_false unexpired]
      rfl

theorem Faithful.answer (faithful : Faithful l run) {key : Text} {clientIp : Option Text} {r : Readings}
    (asks : Asks l run key clientIp r) :
    (∀ stream, (l.validatePlayerKey run.state key clientIp r).answer = .ok stream →
        FreshlyNamed l run key r.lookedUp stream) ∧
      ((l.validatePlayerKey run.state key clientIp r).answer = .error → FreshlyRefused l run key r.lookedUp) := by
  have forward : run.clock ≤ r.lookedUp := by
    obtain ⟨checked,cleaned,lookedUp,counted⟩ := asks.readings
    omega
  rw [asks.answer]
  cases found : (run.state.cache.lookup key).filter fun entry => r.lookedUp < entry.expiryTime with
  | none => exact ⟨fun stream impossible => (by cases impossible),fun impossible => (by cases impossible)⟩
  | some entry =>
    obtain ⟨present,unexpired⟩ := Option.filter_eq_some_iff.mp found
    have unexpired := of_decide_eq_true unexpired
    obtain ⟨p,last,rfl⟩ := faithful.answered key entry present
    have member := List.mem_of_find?_eq_some last
    have read : p.time ≤ r.lookedUp := Int.le_trans (faithful.past p member) forward
    dsimp only
    cases names : named p.response with
    | some stream =>
      obtain ⟨short,valid,resolved,expiry⟩ := responseEntry_named names l.playerKeyCacheDuration p.time
      rw [valid,if_pos rfl,resolved,(cStr_eq_iff stream).mpr (faithful.plain p member stream names),strlcpy_short short]
      rw [expiry] at unexpired
      constructor
      · intro other same
        cases same
        exact ⟨p,last,names,read,by omega⟩
      · intro impossible
        cases impossible
    | none =>
      obtain ⟨invalid,expiry⟩ := responseEntry_refused names l.playerKeyCacheDuration p.time
      rw [invalid,if_neg Bool.false_ne_true]
      rw [expiry] at unexpired
      constructor
      · intro other impossible
        cases impossible
      · intro _
        exact ⟨p,last,names,read,by omega⟩

theorem Faithful.law (faithful : Faithful l run) : CacheLaw l run where
  bounded := faithful.sized
  ok := fun _ _ _ stream asks => (faithful.answer asks).1 stream
  error := fun _ _ _ asks => (faithful.answer asks).2
  pending := by
    intro key clientIp r asks unnamed unrefused
    obtain ⟨ok,error⟩ := faithful.answer asks
    cases answer : (l.validatePlayerKey run.state key clientIp r).answer with
    | ok stream => exact absurd (ok stream answer) (unnamed stream)
    | error => exact absurd (error answer) unrefused
    | pending => rfl
  evicts := by
    intro key response now inserted other entry _ _ evicts
    obtain ⟨full,least,chosen⟩ := insert_evicts faithful.sized evicts.apart evicts.found evicts.unexpired evicts.gone
    refine ⟨full,least,fun name kept also => ?_⟩
    have chosenToo := (insert_evicts faithful.sized also.apart also.found also.unexpired also.gone).2.2
    rw [chosen] at chosenToo
    exact (Option.some.inj chosenToo).symm

/-- In every run in which no answer cached as valid names a stream with a NUL byte in it,
the cache is bounded, what it answers is the last answer for the key while that is
fresh, and only a cache full of unexpired entries loses one of them. -/
theorem answers_follow_last_response (l : Settings) {clock : Int} {labels : List Label} {run : Run}
    (plain : l.machine.Admits (fun _ label => Plain label) (Run.start clock) labels)
    (ran : l.machine.run (Run.start clock) labels = some run) : CacheLaw l run :=
  (step_faithful.run (Faithful.start clock) plain ran).law

def answered (streamId : Text) : List Label :=
  [.process (ascii "key12345") ⟨true,200,.object streamId .absent⟩ 0 0]

theorem answers_follow_last_response_cam :
    ∃ run, live.machine.run (Run.start 0) (answered (ascii "publish/live/cam")) = some run ∧ CacheLaw live run := by
  have plain : live.machine.Admits (fun _ label => Plain label) (Run.start 0) (answered (ascii "publish/live/cam")) := by
    refine ⟨?_,fun _ _ => trivial⟩
    intro stream names
    cases names
    decide
  exact ⟨_,rfl,answers_follow_last_response live plain rfl⟩

/-- The last answer named a stream with a NUL in it, and the key is let in for what
stands before the NUL. -/
theorem nul_in_answer_cut :
    ∃ run, live.machine.run (Run.start 0) (answered (ascii "a" ++ 0::ascii "b")) = some run ∧ ¬ CacheLaw live run := by
  refine ⟨_,rfl,fun law => ?_⟩
  obtain ⟨p,last,names,_⟩ := law.ok (ascii "key12345") none ⟨0,0,0,0⟩ (ascii "a")
    ⟨by decide,by decide,by decide,rfl⟩ rfl
  cases last
  revert names
  decide

end SrtLiveServer.PlayerKeyHistory
