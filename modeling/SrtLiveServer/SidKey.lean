import SrtLiveServer.AuthRejectCache
import SrtLiveServer.StreamId

/-! The canonical form of a stream identifier, under which a refused publisher is
remembered, and the handshake callback that looks it up. -/
namespace SrtLiveServer.SidKey
open Bytes StreamId AuthRejectCache

def triple (sid : Text) : Option Text × Option Text × Option Text :=
  (slsParseStreamid sid (ascii "h"),slsParseStreamid sid (ascii "sls_app"),slsParseStreamid sid (ascii "r"))

/-- The argument is a `std::string`, parsed as the C string it starts with. -/
def slsCanonicalSidKey (streamid : Text) : Text :=
  if streamid = [] then streamid
  else match triple (cStr streamid) with
    | (some h,some a,some r) => h ++ ascii "/" ++ a ++ ascii "/" ++ r
    | _ => streamid

def slsValidateSidFormat (sid : Text) : Bool :=
  if sid = [] then false
  else match triple sid with
    | (some h,some a,some r) => slsIsSafeName h && slsIsSafeName a && slsIsSafeName r
    | _ => false

inductive RejectReason where
  | rogue
  | resource
deriving DecidableEq

/-- `sls_publisher_listen_callback`; `none` accepts the handshake. -/
def slsPublisherListenCallback (cache : Option Cache) (now : Int) (streamid : Text) : Option RejectReason :=
  if !slsValidateSidFormat streamid then some .rogue
  else if cache.any fun c => c.isBlocked (slsCanonicalSidKey streamid) now then some .resource
  else none

/-- The part of `check_http_client_response` for a webhook that refuses the key. -/
def refuse (cache : Cache) (now : Int) (streamid : Text) : Cache := cache.recordFailure (slsCanonicalSidKey streamid) now

theorem slsValidateSidFormat_route {sid : Text} (valid : slsValidateSidFormat sid = true) :
    ∃ r, route sid = some r ∧ triple sid = (some r.host,some r.app,some r.stream) := by
  unfold slsValidateSidFormat at valid
  split at valid
  · cases valid
  · split at valid
    · rename_i h a r found
      simp only [Bool.and_eq_true,and_assoc] at valid
      refine ⟨⟨h,a,r,valid⟩,?_,found⟩
      simp only [triple,Prod.mk.injEq] at found
      unfold route
      rw [found.1,found.2.1,found.2.2]
      exact dif_pos valid
    · cases valid

theorem route_triple {sid : Text} {r : Route} (routed : route sid = some r) :
    triple sid = (some r.host,some r.app,some r.stream) := by
  unfold route at routed
  unfold triple
  split at routed
  · rename_i host app stream isHost isApp isStream
    split at routed
    · cases routed
      rw [isHost,isApp,isStream]
    · cases routed
  · cases routed

theorem route_valid {sid : Text} {r : Route} (routed : route sid = some r) (nonempty : sid ≠ []) :
    slsValidateSidFormat sid = true := by
  unfold slsValidateSidFormat
  rw [if_neg nonempty,route_triple routed]
  simp only [r.safe,Bool.and_self]

def routeKey (r : Route) : Text := r.host ++ byte '/'::(r.app ++ byte '/'::r.stream)

theorem routeKey_ne_nil (r : Route) : routeKey r ≠ [] := by simp [routeKey]

theorem routeKey_route (r : Route) : route (routeKey r) = some r := route_joined r.safe

theorem routeKey_cStr (r : Route) : cStr (routeKey r) = routeKey r :=
  (cStr_eq_iff _).mpr (joined_excludes r.safe (by decide) (by decide))

theorem slsCanonicalSidKey_route {sid : Text} {r : Route} (plain : cStr sid = sid) (routed : route sid = some r)
    (nonempty : sid ≠ []) : slsCanonicalSidKey sid = routeKey r := by
  unfold slsCanonicalSidKey
  rw [if_neg nonempty,plain,route_triple routed]
  simp [routeKey,ascii]

theorem routeKey_inj {r other : Route} : routeKey r = routeKey other ↔ r = other := by
  constructor
  · intro same
    have routed := routeKey_route r
    rw [same,routeKey_route other] at routed
    exact (Option.some.inj routed).symm
  · exact congrArg routeKey

theorem route_eq_triple {r other : Route} :
    r = other ↔ ((some r.host,some r.app,some r.stream) : Option Text × Option Text × Option Text) =
      (some other.host,some other.app,some other.stream) := by
  cases r
  cases other
  simp

theorem slsPublisherListenCallback_valid {cache : Cache} {now : Int} {sid : Text}
    (valid : slsValidateSidFormat sid = true) :
    slsPublisherListenCallback (some cache) now sid =
      if cache.isBlocked (slsCanonicalSidKey sid) now then some .resource else none := by
  unfold slsPublisherListenCallback
  rw [valid]
  rfl

/-- For valid identifiers the canonical keys agree exactly if the triples do; the
key is itself valid, has the same triple and is its own canonical key. So a refusal
under one spelling is met by every spelling of the stream and by no other stream. -/
theorem canonical_sid_key (sid other : Text) (plain : (0 : UInt8) ∉ sid) (otherPlain : (0 : UInt8) ∉ other)
    (valid : slsValidateSidFormat sid = true) (otherValid : slsValidateSidFormat other = true) :
    (slsCanonicalSidKey sid = slsCanonicalSidKey other ↔ triple sid = triple other) ∧
    slsValidateSidFormat (slsCanonicalSidKey sid) = true ∧ triple (slsCanonicalSidKey sid) = triple sid ∧
    slsCanonicalSidKey (slsCanonicalSidKey sid) = slsCanonicalSidKey sid ∧
    ∀ (cache : Cache) (now time : Int),
      (triple sid = triple other → time < now + cache.ttl →
        slsPublisherListenCallback (some (refuse cache now sid)) time other = some .resource) ∧
      (triple sid ≠ triple other → slsPublisherListenCallback (some cache) time other = none →
        slsPublisherListenCallback (some (refuse cache now sid)) time other = none) := by
  obtain ⟨r,routed,found⟩ := slsValidateSidFormat_route valid
  obtain ⟨q,otherRouted,otherFound⟩ := slsValidateSidFormat_route otherValid
  have nonempty : ∀ {text : Text}, slsValidateSidFormat text = true → text ≠ [] := by
    rintro text checked rfl
    cases checked
  have key := slsCanonicalSidKey_route ((cStr_eq_iff sid).mpr plain) routed (nonempty valid)
  have otherKey := slsCanonicalSidKey_route ((cStr_eq_iff other).mpr otherPlain) otherRouted (nonempty otherValid)
  have agree : slsCanonicalSidKey sid = slsCanonicalSidKey other ↔ triple sid = triple other := by
    rw [key,otherKey,found,otherFound,routeKey_inj,route_eq_triple]
  refine ⟨agree,?_,?_,?_,?_⟩
  · rw [key]
    exact route_valid (routeKey_route r) (routeKey_ne_nil r)
  · rw [key,found]
    exact route_triple (routeKey_route r)
  · rw [key]
    exact slsCanonicalSidKey_route (routeKey_cStr r) (routeKey_route r) (routeKey_ne_nil r)
  · intro cache now time
    rw [slsPublisherListenCallback_valid otherValid,slsPublisherListenCallback_valid otherValid]
    constructor
    · intro same within
      have named : slsCanonicalSidKey sid ≠ [] := by
        rw [key]
        exact routeKey_ne_nil r
      rw [← agree.mpr same,refuse,cache.recordFailure_blocks named within]
      rfl
    · intro different free
      have apart : slsCanonicalSidKey other ≠ slsCanonicalSidKey sid := fun same => different (agree.mp same.symm)
      have before : cache.isBlocked (slsCanonicalSidKey other) time = false := by
        cases blocked : cache.isBlocked (slsCanonicalSidKey other) time with
        | false => rfl
        | true =>
          rw [blocked] at free
          cases free
      have after : (refuse cache now sid).isBlocked (slsCanonicalSidKey other) time = false := by
        rw [Bool.eq_false_iff]
        intro blocked
        rw [Cache.recordFailure_other apart blocked] at before
        cases before
      rw [after]
      rfl

theorem canonical_sid_key_spellings :
    slsPublisherListenCallback (some (refuse (Cache.create 30) 5 (ascii "#!::r=cam , h=pub,sls_app=live"))) 20
      (ascii " pub/live/cam\n") = some .resource :=
  ((canonical_sid_key (ascii "#!::r=cam , h=pub,sls_app=live") (ascii " pub/live/cam\n") (by decide) (by decide)
    (by decide) (by decide)).2.2.2.2 (Cache.create 30) 5 20).1 (by decide) (by decide)

end SrtLiveServer.SidKey
