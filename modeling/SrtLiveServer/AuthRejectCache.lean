import SrtLiveServer.Bytes
import SrtLiveServer.ExpiryMap
import SrtLiveServer.Transition
import Mathlib.Logic.Function.Basic

/-! `AuthRejectCache`, the publisher stream identifiers that recently failed
authorization, against the history of the calls made on it. A `time_t` is an
integer; the TTL is a configured `int`, so no sum comes near its end. -/
namespace SrtLiveServer.AuthRejectCache
open Bytes ExpiryMap Transition

def maxAuthRejectEntries : Nat := 50000

structure Cache where
  blocked : Expiries Text
  ttl : Int
  lastSweep : Int

def Cache.create (ttlSeconds : Int) : Cache := ⟨∅,if 0 < ttlSeconds then ttlSeconds else 30,0⟩

def Cache.setTtl (c : Cache) (ttlSeconds : Int) : Cache := if ttlSeconds ≤ 0 then c else {c with ttl := ttlSeconds}

/-- The map as `record_failure` finds it behind its sweep. -/
def Cache.swept (c : Cache) (now : Int) : Expiries Text := if now ≠ c.lastSweep then sweep c.blocked now else c.blocked

def Cache.Full (c : Cache) (streamid : Text) (now : Int) : Prop :=
  streamid ∉ c.swept now ∧ maxAuthRejectEntries ≤ (c.swept now).entries.length

instance (c : Cache) (streamid : Text) (now : Int) : Decidable (c.Full streamid now) :=
  inferInstanceAs (Decidable (_ ∧ _))

def Cache.evicted (c : Cache) (streamid : Text) (now : Int) : Expiries Text :=
  if c.Full streamid now then
    match earliest (c.swept now).entries with
    | some victim => (c.swept now).erase victim.1
    | none => c.swept now
  else c.swept now

def Cache.recordFailure (c : Cache) (streamid : Text) (now : Int) : Cache :=
  if streamid = [] then c
  else {c with blocked := (c.evicted streamid now).insert streamid (now + c.ttl),lastSweep := now}

def Cache.isBlocked (c : Cache) (streamid : Text) (now : Int) : Bool :=
  if streamid = [] then false else (c.blocked.lookup streamid).any fun expiry => now < expiry

def Cache.cleanup (c : Cache) (now : Int) : Cache := {c with blocked := sweep c.blocked now}

/-- The cache with the history of the calls: the clock, for each key its last
failure with the TTL it met, and whether an insertion has met a full map. -/
structure State where
  cache : Cache
  clock : Int
  lastFailure : Text → Option (Int × Int)
  overflowed : Bool

def State.start (ttlSeconds : Int) (clock : Int) : State := ⟨Cache.create ttlSeconds,clock,fun _ => none,false⟩

inductive Label where
  | recordFailure (streamid : Text) (now : Int)
  | isBlocked (streamid : Text) (now : Int)
  | cleanup (now : Int)
  | setTtl (ttlSeconds : Int)
  /-- The hash table iterates in another order. -/
  | rearrange (order : Expiries Text)

/-- The clock does not run backwards. -/
def State.step (s : State) : Label → Option State
  | .recordFailure streamid now =>
    if s.clock ≤ now then
      some {
        cache := s.cache.recordFailure streamid now
        clock := now
        lastFailure := Function.update s.lastFailure streamid (some (now,s.cache.ttl))
        overflowed := s.overflowed || (streamid ≠ [] && s.cache.Full streamid now)}
    else none
  | .isBlocked _ now => if s.clock ≤ now then some {s with clock := now} else none
  | .cleanup now => if s.clock ≤ now then some {s with cache := s.cache.cleanup now,clock := now} else none
  | .setTtl ttlSeconds => some {s with cache := s.cache.setTtl ttlSeconds}
  | .rearrange order =>
    if order.entries.Perm s.cache.blocked.entries then some {s with cache := {s.cache with blocked := order}} else none

def machine : Machine State Label := ⟨State.step⟩

/-- Behind the clock the map answers as the history does. -/
structure State.Sound (s : State) : Prop where
  sized : s.cache.blocked.entries.length ≤ maxAuthRejectEntries
  faithful : s.overflowed = false → ∀ streamid, streamid ≠ [] → ∀ time, s.clock ≤ time →
    ((s.cache.blocked.lookup streamid).any fun expiry => time < expiry) =
      (s.lastFailure streamid).any fun failure => time < failure.1 + failure.2

theorem State.start_sound (ttlSeconds clock : Int) : (State.start ttlSeconds clock).Sound where
  sized := Nat.zero_le _
  faithful := fun _ _ _ _ _ => rfl

theorem Cache.swept_length (c : Cache) (now : Int) : (c.swept now).entries.length ≤ c.blocked.entries.length := by
  unfold Cache.swept
  split
  · exact sweep_length _ _
  · exact Nat.le_refl _

theorem Cache.swept_live (c : Cache) {now time : Int} (later : now ≤ time) (streamid : Text) :
    (((c.swept now).lookup streamid).any fun expiry => time < expiry) =
      (c.blocked.lookup streamid).any fun expiry => time < expiry := by
  unfold Cache.swept
  split
  · exact sweep_live c.blocked later streamid
  · rfl

theorem Cache.evicted_full (c : Cache) {streamid : Text} {now : Int} (full : c.Full streamid now) :
    ∃ victim ∈ (c.swept now).entries, (∀ entry ∈ (c.swept now).entries, victim.2 ≤ entry.2) ∧
      c.evicted streamid now = (c.swept now).erase victim.1 := by
  have nonempty : (c.swept now).entries ≠ [] := by
    intro empty
    have bound := full.2
    rw [empty] at bound
    cases bound
  obtain ⟨victim,chosen⟩ := earliest_isSome nonempty
  obtain ⟨member,least⟩ := earliest_spec chosen
  refine ⟨victim,member,least,?_⟩
  unfold Cache.evicted
  rw [if_pos full,chosen]

theorem Cache.evicted_room (c : Cache) {streamid : Text} {now : Int} (room : ¬ c.Full streamid now) :
    c.evicted streamid now = c.swept now := by
  unfold Cache.evicted
  rw [if_neg room]

theorem Cache.evicted_lookup {c : Cache} {streamid other : Text} {now expiry : Int}
    (found : (c.evicted streamid now).lookup other = some expiry) : c.blocked.lookup other = some expiry := by
  have fromSwept : (c.swept now).lookup other = some expiry → c.blocked.lookup other = some expiry := by
    unfold Cache.swept
    split
    · rw [lookup_sweep]
      exact fun kept => (Option.filter_eq_some_iff.mp kept).1
    · exact id
  apply fromSwept
  by_cases full : c.Full streamid now
  · obtain ⟨victim,_,_,evicted⟩ := c.evicted_full full
    rw [evicted] at found
    by_cases same : other = victim.1
    · rw [same,AList.lookup_erase] at found
      cases found
    · rw [AList.lookup_erase_ne same] at found
      exact found
  · rw [c.evicted_room full] at found
    exact found

theorem Cache.recordFailure_blocks (c : Cache) {streamid : Text} (named : streamid ≠ []) {now time : Int}
    (within : time < now + c.ttl) : (c.recordFailure streamid now).isBlocked streamid time = true := by
  unfold Cache.recordFailure Cache.isBlocked
  rw [if_neg named,if_neg named,AList.lookup_insert]
  simpa using within

theorem Cache.recordFailure_other {c : Cache} {streamid other : Text} (different : other ≠ streamid) {now time : Int}
    (blocked : (c.recordFailure streamid now).isBlocked other time = true) : c.isBlocked other time = true := by
  unfold Cache.isBlocked at blocked ⊢
  by_cases nameless : other = []
  · rw [if_pos nameless] at blocked
    cases blocked
  · rw [if_neg nameless] at blocked ⊢
    unfold Cache.recordFailure at blocked
    split at blocked
    · exact blocked
    · dsimp only at blocked
      rw [AList.lookup_insert_ne different] at blocked
      obtain ⟨expiry,found,live⟩ := (Option.any_eq_true _ _).mp blocked
      rw [Cache.evicted_lookup found]
      exact live

theorem Cache.recordFailure_length (c : Cache) (streamid : Text) (now : Int)
    (sized : c.blocked.entries.length ≤ maxAuthRejectEntries) :
    (c.recordFailure streamid now).blocked.entries.length ≤ maxAuthRejectEntries := by
  have bound := Nat.le_trans (c.swept_length now) sized
  unfold Cache.recordFailure
  split
  · exact sized
  · dsimp only
    by_cases full : c.Full streamid now
    · obtain ⟨victim,member,_,evicted⟩ := c.evicted_full full
      have fresh : streamid ∉ (c.swept now).erase victim.1 := fun kept => full.1 (AList.mem_erase.mp kept).2
      have split := (erase_perm member).length_eq
      rw [List.length_cons] at split
      rw [evicted,insert_length_fresh fresh]
      omega
    · rw [c.evicted_room full]
      by_cases present : streamid ∈ c.swept now
      · rw [insert_length_present present]
        exact bound
      · rw [insert_length_fresh present]
        have room : ¬ maxAuthRejectEntries ≤ (c.swept now).entries.length := fun filled => full ⟨present,filled⟩
        omega

theorem State.Sound.recordFailure {s : State} (sound : s.Sound) {streamid : Text} {now : Int} (forward : s.clock ≤ now) :
    State.Sound {
      cache := s.cache.recordFailure streamid now
      clock := now
      lastFailure := Function.update s.lastFailure streamid (some (now,s.cache.ttl))
      overflowed := s.overflowed || (streamid ≠ [] && s.cache.Full streamid now)} where
  sized := s.cache.recordFailure_length streamid now sound.sized
  faithful := by
    intro calm key named time later
    simp only [Bool.or_eq_false_iff] at calm
    have before := sound.faithful calm.1 key named time (Int.le_trans forward later)
    dsimp only
    unfold Cache.recordFailure
    by_cases nameless : streamid = []
    · have other : key ≠ streamid := fun same => named (same.trans nameless)
      rw [if_pos nameless,Function.update_of_ne other]
      exact before
    · have room : ¬ s.cache.Full streamid now := by simpa [nameless] using calm.2
      rw [if_neg nameless,s.cache.evicted_room room]
      dsimp only
      by_cases same : key = streamid
      · subst same
        rw [AList.lookup_insert,Function.update_self]
        rfl
      · rw [AList.lookup_insert_ne same,Function.update_of_ne same,s.cache.swept_live later]
        exact before

theorem machine_keeps : machine.Keeps (fun _ _ => True) State.Sound := by
  intro s label next sound _ stepped
  cases label with
  | recordFailure streamid now =>
    obtain ⟨forward,same⟩ := Option.ite_none_right_eq_some.mp stepped
    cases same
    exact sound.recordFailure forward
  | isBlocked streamid now =>
    obtain ⟨forward,same⟩ := Option.ite_none_right_eq_some.mp stepped
    cases same
    exact ⟨sound.sized,fun calm key named time later => sound.faithful calm key named time (Int.le_trans forward later)⟩
  | cleanup now =>
    obtain ⟨forward,same⟩ := Option.ite_none_right_eq_some.mp stepped
    cases same
    refine ⟨Nat.le_trans (sweep_length _ _) sound.sized,?_⟩
    intro calm key named time later
    exact (sweep_live s.cache.blocked later key).trans
      (sound.faithful calm key named time (Int.le_trans forward later))
  | setTtl ttlSeconds =>
    cases stepped
    have kept : (s.cache.setTtl ttlSeconds).blocked = s.cache.blocked := by
      unfold Cache.setTtl
      split <;> rfl
    constructor
    · dsimp only
      rw [kept]
      exact sound.sized
    · dsimp only
      rw [kept]
      exact sound.faithful
  | rearrange order =>
    obtain ⟨permuted,same⟩ := Option.ite_none_right_eq_some.mp stepped
    cases same
    constructor
    · dsimp only
      rw [permuted.length_eq]
      exact sound.sized
    · intro calm key named time later
      dsimp only
      rw [AList.perm_lookup permuted]
      exact sound.faithful calm key named time later

/-- After any calls under a clock that does not run backwards: the map is within
its bound; until an insertion has met a map still full behind its sweep a key is
blocked exactly while the TTL of its last failure runs, and the empty key never is;
and such an insertion takes out one entry, of the smallest expiry, for the key's own. -/
theorem reject_cache_refines (ttlSeconds clock : Int) (labels : List Label) (s : State)
    (ran : machine.run (State.start ttlSeconds clock) labels = some s) :
    s.cache.blocked.entries.length ≤ maxAuthRejectEntries ∧
    (s.overflowed = false → ∀ streamid, streamid ≠ [] → ∀ time, s.clock ≤ time →
      (s.cache.isBlocked streamid time = true ↔
        ∃ recorded ttl, s.lastFailure streamid = some (recorded,ttl) ∧ time < recorded + ttl)) ∧
    (∀ time, s.cache.isBlocked [] time = false) ∧
    ∀ streamid now, streamid ≠ [] → s.clock ≤ now → s.cache.Full streamid now →
      ∃ victim ∈ (s.cache.swept now).entries, (∀ entry ∈ (s.cache.swept now).entries, victim.2 ≤ entry.2) ∧
        victim.1 ≠ streamid ∧ (s.cache.recordFailure streamid now).blocked.entries.Perm
          (⟨streamid,now + s.cache.ttl⟩::(s.cache.swept now).entries.erase victim) := by
  have sound : s.Sound := machine_keeps.run_all (State.start_sound ttlSeconds clock) ran
  refine ⟨sound.sized,?_,fun _ => rfl,?_⟩
  · intro calm streamid named time later
    unfold Cache.isBlocked
    rw [if_neg named,sound.faithful calm streamid named time later,Option.any_eq_true]
    simp
  · intro streamid now named _ full
    obtain ⟨victim,member,least,evicted⟩ := s.cache.evicted_full full
    have other : victim.1 ≠ streamid := by
      intro same
      rw [← same] at full
      exact full.1 (AList.mem_keys.mpr (List.mem_keys_of_mem member))
    have fresh : streamid ∉ (s.cache.swept now).erase victim.1 := fun kept => full.1 (AList.mem_erase.mp kept).2
    refine ⟨victim,member,least,other,?_⟩
    unfold Cache.recordFailure
    rw [if_neg named,evicted]
    dsimp only
    rw [AList.entries_insert_of_notMem fresh]
    apply List.Perm.cons
    have removed := (erase_perm member).erase victim
    rw [List.erase_cons_head] at removed
    exact removed.symm

theorem reject_cache_refines_expiring :
    ∃ s, machine.run (State.start 30 0) [.recordFailure (ascii "a") 5,.setTtl 60,.recordFailure (ascii "b") 6,
      .cleanup 40] = some s ∧ s.cache.isBlocked (ascii "a") 40 = false ∧ s.cache.isBlocked (ascii "b") 40 = true := by
  refine ⟨_,rfl,?_⟩
  have refines := reject_cache_refines 30 0 [.recordFailure (ascii "a") 5,.setTtl 60,.recordFailure (ascii "b") 6,
    .cleanup 40] _ rfl
  have calm := refines.2.1 (by decide)
  constructor
  · rw [Bool.eq_false_iff]
    intro blocked
    obtain ⟨recorded,ttl,failed,live⟩ := (calm (ascii "a") (by decide) 40 (by decide)).mp blocked
    have last : some (recorded,ttl) = some ((5 : Int),(30 : Int)) := failed.symm.trans (by decide)
    cases last
    revert live
    decide
  · exact (calm (ascii "b") (by decide) 40 (by decide)).mpr ⟨6,60,by decide,by decide⟩

/-- A failure under the empty identifier is not recorded. -/
theorem empty_streamid_never_blocked :
    ¬ ∀ (ttlSeconds clock : Int) (labels : List Label) (s : State),
      machine.run (State.start ttlSeconds clock) labels = some s → s.overflowed = false →
      ∀ streamid time, s.clock ≤ time → (s.cache.isBlocked streamid time = true ↔
        ∃ recorded ttl, s.lastFailure streamid = some (recorded,ttl) ∧ time < recorded + ttl) := by
  intro claim
  have blocked := (claim 30 0 [.recordFailure [] 0] _ rfl rfl [] 1 (by decide)).mpr ⟨0,30,rfl,by decide⟩
  cases blocked

end SrtLiveServer.AuthRejectCache
