import SrtLiveServer.PlayerKeyGate

/-! The player cap of `finish_player_accept` over a `CSLSPlayerRegistry` shared by
the listeners of a server block. The registry's count and its add are separate
critical sections, and players are torn down at any time. -/
namespace SrtLiveServer.PlayerRegistry
open Bytes PlayerKeyGate Transition

structure StreamPlayerLimitEntry where
  hasOverride : Bool
  maxPlayersPerStream : Int
  expiryTime : Int
deriving DecidableEq

/-- One call of `finish_player_accept`, with the cap its app configures. -/
structure Request where
  stream : Text
  playerKey : Text
  validationRequired : Bool
  appMaxPlayers : Int
deriving DecidableEq

inductive Phase where
  | idle
  | resolving (request : Request)
  /-- Past the cap check with `cap`, having counted `counted` players; `since` is
  how many players of the stream others have registered after that count. -/
  | admitting (stream : Text) (cap : Int) (counted since : Nat)
deriving DecidableEq

/-- A listener's own maps, and the accept it is working on. -/
structure ListenerState where
  limits : Text → Option StreamPlayerLimitEntry
  cache : Cache
  phase : Phase

structure State where
  /-- `m_players`: the registrations of a stream, by player. -/
  players : Text → List Nat
  /-- The player's snapshot is closed, or its role is freed. -/
  closed : Nat → Bool
  nextPlayer : Nat
  listeners : Nat → ListenerState
  /-- The admission the last step made: its stream and effective cap. -/
  admitted : Option (Text × Int)

def State.start : State where
  players := fun _ => []
  closed := fun _ => false
  nextPlayer := 0
  listeners := fun _ => ⟨fun _ => none,fun _ => none,.idle⟩
  admitted := none

def State.prune (s : State) (stream : Text) : List Nat := (s.players stream).filter fun p => !s.closed p

/-- `CSLSPlayerRegistry::count`. -/
def State.count (s : State) (stream : Text) : Nat := (s.prune stream).length

def keyOverride (entry : Option CacheEntry) (now : Int) : Option Int :=
  entry.bind fun e => if e.isValid && decide (now < e.expiryTime) then e.maxPlayersOverride else none

def adoptOverride (listener : ListenerState) (request : Request) (now : Int) :
    Text → Option StreamPlayerLimitEntry :=
  if request.validationRequired then
    match listener.cache request.playerKey,keyOverride (listener.cache request.playerKey) now with
    | some entry,some limit =>
      Function.update listener.limits request.stream (some ⟨true,limit,entry.expiryTime⟩)
    | _,_ => listener.limits
  else listener.limits

/-- The stream's unexpired override, else the key's, else the app's cap. -/
def effectiveMaxPlayers (listener : ListenerState) (request : Request) (now : Int) : Int :=
  let byStream := (listener.limits request.stream).bind fun entry =>
    if entry.hasOverride && decide (now < entry.expiryTime) then some entry.maxPlayersPerStream else none
  match byStream with
  | some limit => limit
  | none =>
    if request.validationRequired then
      (keyOverride (listener.cache request.playerKey) now).getD request.appMaxPlayers
    else request.appMaxPlayers

def dropExpired (limits : Text → Option StreamPlayerLimitEntry) (stream : Text) (now : Int) :
    Text → Option StreamPlayerLimitEntry :=
  Function.update limits stream ((limits stream).filter fun entry => decide (now < entry.expiryTime))

inductive Label where
  | cache (listener : Nat) (key : Text) (entry : Option CacheEntry)
  | sweep (listener : Nat) (now : Int)
  | begin (listener : Nat) (request : Request) (now : Int)
  | refuse (listener : Nat)
  | check (listener : Nat) (now : Int)
  | add (listener : Nat)
  | close (player : Nat)

def State.setListener (s : State) (l : Nat) (listener : ListenerState) : State :=
  {s with listeners := Function.update s.listeners l listener,admitted := none}

def ListenerState.checked (listener : ListenerState) (request : Request) (now : Int) (count : Nat) : ListenerState :=
  let cap := effectiveMaxPlayers listener request now
  {listener with
    limits := dropExpired listener.limits request.stream now
    phase := if 0 < cap ∧ cap ≤ count then .idle else .admitting request.stream cap count 0}

/-- Counting prunes; without a cap the registry is not asked. -/
def State.afterCount (s : State) (stream : Text) (cap : Int) : State :=
  if 0 < cap then {s with players := Function.update s.players stream (s.prune stream)} else s

def Phase.passedBy (stream : Text) : Phase → Phase
  | .admitting other cap counted since =>
    if other = stream then .admitting other cap counted (since + 1) else .admitting other cap counted since
  | phase => phase

def State.step (s : State) : Label → Option State
  | .cache l key entry =>
    let listener := s.listeners l
    some (s.setListener l {listener with cache := Function.update listener.cache key entry})
  | .sweep l now =>
    let listener := s.listeners l
    some (s.setListener l {listener with
      limits := fun stream => (listener.limits stream).filter fun entry => decide (now < entry.expiryTime)})
  | .begin l request now =>
    let listener := s.listeners l
    match listener.phase with
    | .idle =>
      some (s.setListener l {listener with limits := adoptOverride listener request now,phase := .resolving request})
    | _ => none
  | .refuse l =>
    let listener := s.listeners l
    match listener.phase with
    | .resolving _ => some (s.setListener l {listener with phase := .idle})
    | _ => none
  | .check l now =>
    let listener := s.listeners l
    match listener.phase with
    | .resolving request =>
      some ((s.afterCount request.stream (effectiveMaxPlayers listener request now)).setListener l
        (listener.checked request now (s.count request.stream)))
    | _ => none
  | .add l =>
    match (s.listeners l).phase with
    | .admitting stream cap _ _ =>
      some {s with
        players := Function.update s.players stream (s.prune stream ++ [s.nextPlayer])
        nextPlayer := s.nextPlayer + 1
        listeners := fun k =>
          if k = l then {s.listeners k with phase := .idle}
          else {s.listeners k with phase := (s.listeners k).phase.passedBy stream}
        admitted := some (stream,cap)}
    | _ => none
  | .close p => some {s with closed := Function.update s.closed p true,admitted := none}

def registry : Machine State Label := ⟨State.step⟩

/-- Right after an admission under a cap, the stream has at most that many live players. -/
def State.Capped (s : State) : Prop :=
  ∀ stream cap, s.admitted = some (stream,cap) → 1 ≤ cap → (s.count stream : Int) ≤ cap

/-- Between its count and its add an admission is passed by fewer players than it
had room for. -/
def State.Unraced (s : State) : Label → Prop
  | .add l =>
    match (s.listeners l).phase with
    | .admitting _ cap counted since => 1 ≤ cap → (counted + since : Int) < cap
    | _ => True
  | _ => True

/-- The count an admission rests on, with the players added since, covers the
live ones. -/
def State.Covers (s : State) : Prop :=
  ∀ l stream cap counted since, (s.listeners l).phase = .admitting stream cap counted since →
    s.count stream ≤ counted + since

structure State.Sound (s : State) : Prop where
  covers : s.Covers
  capped : s.Capped

theorem State.start_sound : State.start.Sound where
  covers := fun _ _ _ _ _ phase => by simp [State.start] at phase
  capped := fun _ _ admitted => by simp [State.start] at admitted

theorem State.Sound.setListener {s : State} (sound : s.Sound) (l : Nat) (listener : ListenerState) (next : State)
    (listeners : next.listeners = Function.update s.listeners l listener) (quiet : next.admitted = none)
    (counts : ∀ stream, next.count stream = s.count stream)
    (mine : ∀ stream cap counted since, listener.phase = .admitting stream cap counted since →
      s.count stream ≤ counted + since) : next.Sound := by
  refine ⟨?_,fun stream cap admitted => ?_⟩
  · intro k stream cap counted since phase
    rw [counts]
    by_cases same : k = l
    · subst k
      rw [listeners,Function.update_self] at phase
      exact mine stream cap counted since phase
    · rw [listeners,Function.update_of_ne same] at phase
      exact sound.covers k stream cap counted since phase
  · rw [quiet] at admitted
    cases admitted

theorem State.count_setListener (s : State) (l : Nat) (listener : ListenerState) (stream : Text) :
    (s.setListener l listener).count stream = s.count stream := rfl

theorem State.Sound.samePhase {s : State} (sound : s.Sound) (l : Nat) (listener : ListenerState)
    (phase : listener.phase = (s.listeners l).phase) : (s.setListener l listener).Sound :=
  sound.setListener l listener _ rfl rfl (s.count_setListener l listener) fun stream cap counted since admitting =>
    sound.covers l stream cap counted since (phase ▸ admitting)

theorem State.Sound.outside {s : State} (sound : s.Sound) (l : Nat) (listener : ListenerState)
    (out : ∀ stream cap counted since, listener.phase ≠ .admitting stream cap counted since) :
    (s.setListener l listener).Sound :=
  sound.setListener l listener _ rfl rfl (s.count_setListener l listener) fun stream cap counted since admitting =>
    absurd admitting (out stream cap counted since)

theorem State.count_afterCount (s : State) (stream other : Text) (cap : Int) :
    (s.afterCount stream cap).count other = s.count other := by
  unfold State.afterCount
  split
  · unfold State.count State.prune
    by_cases same : other = stream
    · subst other
      simp [List.filter_filter]
    · simp [same]
  · rfl

theorem State.afterCount_listeners (s : State) (stream : Text) (cap : Int) :
    (s.afterCount stream cap).listeners = s.listeners := by
  unfold State.afterCount
  split <;> rfl

theorem State.Sound.check {s next : State} (sound : s.Sound) (l : Nat) (now : Int)
    (stepped : s.step (.check l now) = some next) : next.Sound := by
  simp only [State.step] at stepped
  split at stepped
  · rename_i request resolving
    cases stepped
    refine sound.setListener l ((s.listeners l).checked request now (s.count request.stream)) _ ?_ rfl ?_ ?_
    · rw [State.setListener,State.afterCount_listeners]
    · exact fun stream => s.count_afterCount request.stream stream _
    · intro stream cap counted since admitting
      unfold ListenerState.checked at admitting
      dsimp only at admitting
      split at admitting
      · cases admitting
      · cases admitting
        exact Nat.le_refl _
  · cases stepped

theorem State.count_close (s : State) (p : Nat) (stream : Text) :
    State.count {s with closed := Function.update s.closed p true,admitted := none} stream ≤ s.count stream := by
  unfold State.count State.prune
  rw [← List.countP_eq_length_filter,← List.countP_eq_length_filter]
  apply List.countP_mono_left
  intro q _ live
  by_cases same : q = p
  · subst q
    simp at live
  · simpa [same] using live

theorem State.Sound.close {s : State} (sound : s.Sound) (p : Nat) :
    State.Sound {s with closed := Function.update s.closed p true,admitted := none} := by
  refine ⟨?_,fun stream cap admitted => by cases admitted⟩
  intro l stream cap counted since phase
  exact (s.count_close p stream).trans (sound.covers l stream cap counted since phase)

def State.afterAdd (s : State) (l : Nat) (stream : Text) (cap : Int) : State :=
  {s with
    players := Function.update s.players stream (s.prune stream ++ [s.nextPlayer])
    nextPlayer := s.nextPlayer + 1
    listeners := fun k =>
      if k = l then {s.listeners k with phase := .idle}
      else {s.listeners k with phase := (s.listeners k).phase.passedBy stream}
    admitted := some (stream,cap)}

theorem State.count_afterAdd (s : State) (l : Nat) (stream : Text) (cap : Int) :
    (s.afterAdd l stream cap).count stream ≤ s.count stream + 1 := by
  unfold State.count State.prune State.afterAdd
  simp only [Function.update_self,List.filter_append,List.length_append]
  have pruned : ((s.prune stream).filter fun p => !s.closed p).length ≤ (s.prune stream).length :=
    List.length_filter_le _ _
  have added : ([s.nextPlayer].filter fun p => !s.closed p).length ≤ 1 := List.length_filter_le _ _
  exact Nat.add_le_add pruned added

theorem State.count_afterAdd_other (s : State) (l : Nat) (stream other : Text) (cap : Int) (different : other ≠ stream) :
    (s.afterAdd l stream cap).count other = s.count other := by
  unfold State.count State.prune State.afterAdd
  simp [different]

theorem Phase.passedBy_admitting (phase : Phase) (stream other : Text) (cap : Int) (counted since : Nat)
    (passed : phase.passedBy stream = .admitting other cap counted since) :
    (other ≠ stream ∧ phase = .admitting other cap counted since) ∨
      other = stream ∧ ∃ earlier, since = earlier + 1 ∧ phase = .admitting other cap counted earlier := by
  cases phase with
  | idle => cases passed
  | resolving request => cases passed
  | admitting name limit number earlier =>
    unfold Phase.passedBy at passed
    dsimp only at passed
    split at passed
    · rename_i same
      cases passed
      exact Or.inr ⟨same,earlier,rfl,rfl⟩
    · rename_i different
      cases passed
      exact Or.inl ⟨different,rfl⟩

theorem State.Sound.add {s : State} (sound : s.Sound) (l : Nat) (stream : Text) (cap : Int) (counted since : Nat)
    (admitting : (s.listeners l).phase = .admitting stream cap counted since)
    (room : 1 ≤ cap → (counted + since : Int) < cap) : (s.afterAdd l stream cap).Sound := by
  have raised := s.count_afterAdd l stream cap
  constructor
  · intro k other limit number passed phase
    unfold State.afterAdd at phase
    dsimp only at phase
    split at phase
    · cases phase
    · rcases Phase.passedBy_admitting _ _ _ _ _ _ phase with ⟨different,before⟩ | ⟨rfl,earlier,rfl,before⟩
      · rw [s.count_afterAdd_other l stream other cap different]
        exact sound.covers k other limit number passed before
      · have covered := sound.covers k other limit number earlier before
        omega
  · intro other limit admitted positive
    cases admitted
    have covered := sound.covers l stream cap counted since admitting
    have room := room positive
    omega

theorem registry_keeps : registry.Keeps State.Unraced State.Sound := by
  intro s label next sound unraced stepped
  change s.step label = some next at stepped
  cases label with
  | cache l key entry =>
    cases Option.some.inj stepped
    exact sound.samePhase l _ rfl
  | sweep l now =>
    cases Option.some.inj stepped
    exact sound.samePhase l _ rfl
  | begin l request now =>
    simp only [State.step] at stepped
    split at stepped <;> cases stepped
    exact sound.outside l _ (by simp)
  | refuse l =>
    simp only [State.step] at stepped
    split at stepped <;> cases stepped
    exact sound.outside l _ (by simp)
  | check l now => exact sound.check l now stepped
  | add l =>
    simp only [State.step] at stepped
    split at stepped
    · rename_i stream cap counted since admitting
      cases stepped
      simp only [State.Unraced,admitting] at unraced
      exact sound.add l stream cap counted since admitting unraced
    · cases stepped
  | close p =>
    cases Option.some.inj stepped
    exact sound.close p

/-- In every interleaving in which no admission is passed by as many players as
it had room for, the cap holds after each admission. -/
theorem player_cap_holds (labels : List Label) (s : State) (admitted : registry.Admits State.Unraced State.start labels)
    (ran : registry.run State.start labels = some s) : s.Capped :=
  (registry_keeps.run State.start_sound admitted ran).capped

def soleViewer : Request := ⟨ascii "live/s",[],false,1⟩

theorem player_cap_holds_sequential :
    ∃ s, registry.run State.start [.begin 0 soleViewer 0,.check 0 0,.add 0] = some s ∧
      s.admitted = some (ascii "live/s",1) ∧ s.Capped := by
  refine ⟨_,rfl,rfl,player_cap_holds [.begin 0 soleViewer 0,.check 0 0,.add 0] _ ?_ rfl⟩
  refine ⟨trivial,?_⟩
  rintro _ ⟨⟩
  refine ⟨trivial,?_⟩
  rintro _ ⟨⟩
  refine ⟨fun _ => by decide,fun _ _ => trivial⟩

theorem concurrent_admissions_exceed_cap :
    ¬ ∀ (labels : List Label) (s : State), registry.run State.start labels = some s → s.Capped := by
  intro claim
  have capped := claim [.begin 0 soleViewer 0,.begin 1 soleViewer 0,.check 0 0,.check 1 0,.add 0,.add 1] _ rfl
  exact absurd (capped (ascii "live/s") 1 rfl (by decide)) (by decide)

end SrtLiveServer.PlayerRegistry
