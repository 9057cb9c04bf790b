import SrtLiveServer.Transition
import Mathlib.Logic.Function.Basic

/-! One stream key in the two stores `CSLSMapPublisher` and `CSLSMapData`, and
the roles that register, feed and tear down that stream. Each step is one
locked map operation of one role, so every order of the workers is a run. -/
namespace SrtLiveServer.RingOwnership
open Transition

inductive Kind where
  | publisher
  | puller
deriving DecidableEq,Repr

inductive Phase where
  | idle
  /-- `finish_publisher_accept` found no incumbent and set the role's bindings. -/
  | bound
  | live
  /-- `set_relay_param` registered the puller; its ring is not added yet. -/
  | adding
  | rollback
  /-- `CSLSPublisher::uninit` is about to look up the owner. -/
  | ownerCheck
  /-- `CSLSPuller::uninit` is about to leave the publisher map. -/
  | leaving
  /-- About to remove the key from `CSLSMapData`. -/
  | removing
  | unregistering
  | done
deriving DecidableEq,Repr

structure Role where
  kind : Kind
  phase : Phase
  ringAdded : Bool
deriving DecidableEq,Repr

structure Stream where
  publisher : Option Nat
  ring : Bool
  roles : Nat → Role

def Stream.start : Stream := ⟨none,false,fun _ => ⟨.publisher,.idle,false⟩⟩

inductive Act where
  /-- `finish_publisher_accept` up to the role's bindings. -/
  | accept
  | setPush2Publisher
  /-- The registration in `CSLSPullerManager::set_relay_param`. -/
  | setRelayParam
  /-- The connect-time add of a puller; `room` is whether the caps allow a new ring. -/
  | addAtConnect (room : Bool)
  | undoRelayParam
  | readData (room : Bool)
  | uninit
  | getPublisher
  | leaveMap
  | removeRing
deriving DecidableEq,Repr

def mapDataAdd (ring room : Bool) : Bool := ring || room

def mapPublisherRemove (publisher : Option Nat) (r : Nat) : Option Nat :=
  if publisher = some r then none else publisher

def Stream.setRole (s : Stream) (r : Nat) (role : Role) : Stream :=
  {s with roles := Function.update s.roles r role}

def Stream.move (s : Stream) (r : Nat) (phase : Phase) : Stream :=
  s.setRole r {s.roles r with phase := phase}

def Stream.step (s : Stream) (label : Nat × Act) : Option Stream :=
  let r := label.1
  match label.2,(s.roles r).phase with
  | .accept,.idle =>
    -- with an incumbent the refused role has no bindings, so its `uninit` touches neither map
    if s.publisher = none then some (s.move r .bound) else some (s.move r .done)
  | .setPush2Publisher,.bound =>
    if s.publisher = none then some {s.move r .live with publisher := some r}
    else some (s.move r .ownerCheck)
  | .setRelayParam,.idle =>
    if s.publisher = none then some {s.setRole r ⟨.puller,.adding,false⟩ with publisher := some r}
    else some (s.move r .done)
  | .addAtConnect room,.adding =>
    if mapDataAdd s.ring room then some {s.move r .live with ring := true} else some (s.move r .rollback)
  | .undoRelayParam,.rollback =>
    some {s.move r .done with publisher := mapPublisherRemove s.publisher r}
  | .readData room,.live =>
    if (s.roles r).ringAdded then some s
    else if mapDataAdd s.ring room then
      some {s.setRole r {s.roles r with ringAdded := true} with ring := true}
    else some s
  | .uninit,.live =>
    match (s.roles r).kind with
    | .publisher => some (s.move r .ownerCheck)
    | .puller => some (s.move r .leaving)
  | .getPublisher,.ownerCheck =>
    if s.publisher = none ∨ s.publisher = some r then some (s.move r .removing)
    else some (s.move r .unregistering)
  | .leaveMap,.leaving =>
    some {s.move r .removing with publisher := mapPublisherRemove s.publisher r}
  | .removeRing,.removing =>
    match (s.roles r).kind with
    | .publisher => some {s.move r .unregistering with ring := false}
    | .puller => some {s.move r .done with ring := false}
  | .leaveMap,.unregistering =>
    some {s.move r .done with publisher := mapPublisherRemove s.publisher r}
  | _,_ => none

def stream : Machine Stream (Nat × Act) := ⟨Stream.step⟩

/-- Past a successful add: a puller's at connect time, a publisher's at its first packet. -/
def Role.Added (role : Role) : Prop := role.ringAdded = true ∨ role.kind = .puller

/-- The registered publisher finds the ring it added until its own teardown. -/
def Stream.Owned (s : Stream) : Prop :=
  ∀ r, s.publisher = some r → (s.roles r).phase = .live → (s.roles r).Added → s.ring = true

/-- No other role has decided to remove the ring and not yet removed it. -/
def Stream.NoRemoval (s : Stream) (r : Nat) : Prop := ∀ q, q ≠ r → (s.roles q).phase ≠ .removing

/-- A role adds its ring outside every other role's removal window. -/
def Stream.Settled (s : Stream) (label : Nat × Act) : Prop :=
  match label.2 with
  | .addAtConnect _ => s.NoRemoval label.1
  | .readData _ => (s.roles label.1).ringAdded = true ∨ s.NoRemoval label.1
  | _ => True

def Phase.Registered : Phase → Prop
  | .live | .adding | .rollback | .leaving => True
  | _ => False

structure Stream.Sound (s : Stream) : Prop where
  registered : ∀ r, (s.roles r).phase.Registered → s.publisher = some r
  unadded : ∀ r, (s.roles r).phase = .idle ∨ (s.roles r).phase = .bound → ¬ (s.roles r).Added
  owned : ∀ r, (s.roles r).phase = .live → (s.roles r).Added → s.ring = true ∧ s.NoRemoval r

theorem Stream.start_sound : Stream.start.Sound where
  registered := fun _ impossible => impossible.elim
  unadded := fun _ _ => by simp [Stream.start,Role.Added]
  owned := fun _ live => by simp [Stream.start] at live

theorem Stream.Sound.owner {s : Stream} (sound : s.Sound) : s.Owned :=
  fun r _ live added => (sound.owned r live added).1

theorem Stream.Sound.alone {s : Stream} (sound : s.Sound) {r q : Nat} (mine : s.publisher = some r)
    (theirs : (s.roles q).phase.Registered) : q = r := by
  have found := sound.registered q theirs
  rw [mine] at found
  exact (Option.some.inj found).symm

/-- What a step of `r` owes the invariant: its own new place, and the stores it
leaves to the other roles. -/
structure Stream.Moves (s next : Stream) (r : Nat) : Prop where
  others : ∀ q, q ≠ r → next.roles q = s.roles q
  entry : ∀ q, q ≠ r → (s.roles q).phase.Registered → next.publisher = some q
  self : (next.roles r).phase.Registered → next.publisher = some r
  unadded : (next.roles r).phase = .idle ∨ (next.roles r).phase = .bound → ¬ (next.roles r).Added
  spared : ∀ q, q ≠ r → (s.roles q).phase = .live → (s.roles q).Added →
    next.ring = true ∧ (next.roles r).phase ≠ .removing
  added : (next.roles r).phase = .live → (next.roles r).Added → next.ring = true ∧ s.NoRemoval r

theorem Stream.Moves.sound {s next : Stream} {r : Nat} (moves : s.Moves next r) (sound : s.Sound) : next.Sound := by
  constructor
  · intro q registered
    by_cases same : q = r
    · subst q
      exact moves.self registered
    · rw [moves.others q same] at registered
      exact moves.entry q same registered
  · intro q early
    by_cases same : q = r
    · subst q
      exact moves.unadded early
    · rw [moves.others q same] at early ⊢
      exact sound.unadded q early
  · intro q live added
    by_cases same : q = r
    · subst q
      obtain ⟨present,clear⟩ := moves.added live added
      refine ⟨present,?_⟩
      intro p other
      rw [moves.others p other]
      exact clear p other
    · rw [moves.others q same] at live added
      obtain ⟨_,clear⟩ := sound.owned q live added
      obtain ⟨present,spared⟩ := moves.spared q same live added
      refine ⟨present,?_⟩
      intro p other
      by_cases mover : p = r
      · subst p
        exact spared
      · rw [moves.others p mover]
        exact clear p other

@[simp] theorem Stream.setRole_self (s : Stream) (r : Nat) (role : Role) : (s.setRole r role).roles r = role := by
  simp [Stream.setRole]

theorem Stream.setRole_other (s : Stream) (r q : Nat) (role : Role) (other : q ≠ r) :
    (s.setRole r role).roles q = s.roles q := by simp [Stream.setRole,other]

theorem Stream.Sound.move {s : Stream} (sound : s.Sound) (r : Nat) (phase : Phase)
    (keeps : phase.Registered → (s.roles r).phase.Registered) (stays : phase ≠ .live)
    (early : phase = .idle ∨ phase = .bound → ¬ (s.roles r).Added)
    (harmless : phase = .removing → ∀ q, q ≠ r → (s.roles q).phase ≠ .live) : (s.move r phase).Sound := by
  apply Stream.Moves.sound (r := r) _ sound
  refine ⟨fun q other => s.setRole_other r q _ other,fun q _ registered => sound.registered q registered,?_,?_,?_,?_⟩
  · intro registered
    rw [Stream.move,s.setRole_self] at registered
    exact sound.registered r (keeps registered)
  · intro place
    rw [Stream.move,s.setRole_self] at place ⊢
    exact early place
  · intro q other live added
    refine ⟨(sound.owned q live added).1,?_⟩
    rw [Stream.move,s.setRole_self]
    intro removes
    exact harmless removes q other live
  · intro live
    rw [Stream.move,s.setRole_self] at live
    exact absurd live stays

/-- The registration of the role is over. -/
def Phase.Past : Phase → Prop
  | .ownerCheck | .removing | .unregistering | .done => True
  | _ => False

theorem Phase.Past.apart {phase : Phase} (past : phase.Past) :
    ¬ phase.Registered ∧ ¬ (phase = .idle ∨ phase = .bound) ∧ phase ≠ .live := by
  cases phase <;> first | exact past.elim | exact ⟨id,by decide,by decide⟩

theorem Stream.Moves.past {s next : Stream} {r : Nat} {phase : Phase} (roles : next.roles = (s.move r phase).roles)
    (past : phase.Past) (entry : ∀ q, q ≠ r → (s.roles q).phase.Registered → next.publisher = some q)
    (spared : ∀ q, q ≠ r → (s.roles q).phase = .live → (s.roles q).Added → next.ring = true ∧ phase ≠ .removing) :
    s.Moves next r := by
  obtain ⟨unregistered,late,behind⟩ := past.apart
  have place : (next.roles r).phase = phase := by rw [roles,Stream.move,s.setRole_self]
  refine ⟨fun q other => ?_,entry,?_,?_,?_,?_⟩
  · rw [roles]
    exact s.setRole_other r q _ other
  · intro registered
    rw [place] at registered
    exact absurd registered unregistered
  · intro early
    rw [place] at early
    exact absurd early late
  · rw [place]
    exact spared
  · intro live
    rw [place] at live
    exact absurd live behind

theorem Stream.Sound.retire {s : Stream} (sound : s.Sound) (r : Nat) (phase : Phase) (past : phase.Past)
    (harmless : phase ≠ .removing) : (s.move r phase).Sound := by
  refine Stream.Moves.sound (r := r) (.past rfl past (fun q _ registered => sound.registered q registered) ?_) sound
  exact fun q _ live added => ⟨(sound.owned q live added).1,harmless⟩

theorem Stream.Sound.leave {s : Stream} (sound : s.Sound) (r : Nat) (phase : Phase) (past : phase.Past)
    (mine : phase = .removing → s.publisher = some r) :
    Stream.Sound {s.move r phase with publisher := mapPublisherRemove s.publisher r} := by
  refine Stream.Moves.sound (r := r) (.past rfl past ?_ ?_) sound
  · intro q other registered
    have found := sound.registered q registered
    have kept : mapPublisherRemove s.publisher r = s.publisher := by
      rw [mapPublisherRemove,found,if_neg]
      intro equal
      exact other (Option.some.inj equal)
    exact kept.trans found
  · intro q other live added
    refine ⟨(sound.owned q live added).1,?_⟩
    intro removes
    exact other (sound.alone (mine removes) (by rw [live]; trivial))

theorem Stream.Sound.removeRing {s : Stream} (sound : s.Sound) (r : Nat) (phase : Phase)
    (removing : (s.roles r).phase = .removing) (past : phase.Past) :
    Stream.Sound {s.move r phase with ring := false} := by
  refine Stream.Moves.sound (r := r) (.past rfl past (fun q _ registered => sound.registered q registered) ?_) sound
  intro q other live added
  -- a live owner excludes the removal that is under way
  exact absurd removing ((sound.owned q live added).2 r (Ne.symm other))

theorem Stream.Sound.register {s : Stream} (sound : s.Sound) (r : Nat) (role : Role) (free : s.publisher = none)
    (place : role.phase = .live ∧ ¬ role.Added ∨ role.phase = .adding) :
    Stream.Sound {s.setRole r role with publisher := some r} := by
  have vacant : ∀ q, ¬ (s.roles q).phase.Registered := by
    intro q registered
    have found := sound.registered q registered
    rw [free] at found
    cases found
  apply Stream.Moves.sound (r := r) _ sound
  refine ⟨fun q other => s.setRole_other r q role other,fun q _ registered => (vacant q registered).elim,
    fun _ => rfl,?_,?_,?_⟩
  · intro early
    change ((s.setRole r role).roles r).phase = _ ∨ ((s.setRole r role).roles r).phase = _ at early
    rw [s.setRole_self] at early
    rcases place with ⟨live,_⟩ | adding
    · simp [live] at early
    · simp [adding] at early
  · intro q _ live
    exact (vacant q (by rw [live]; trivial)).elim
  · intro live added
    change ((s.setRole r role).roles r).phase = .live at live
    change ((s.setRole r role).roles r).Added at added
    rw [s.setRole_self] at live added
    rcases place with ⟨_,unadded⟩ | adding
    · exact absurd added unadded
    · simp [adding] at live

theorem Stream.Sound.add {s : Stream} (sound : s.Sound) (r : Nat) (role : Role)
    (mine : (s.roles r).phase.Registered) (live : role.phase = .live) (clear : s.NoRemoval r) :
    Stream.Sound {s.setRole r role with ring := true} := by
  apply Stream.Moves.sound (r := r) _ sound
  refine ⟨fun q other => s.setRole_other r q role other,fun q _ registered => sound.registered q registered,
    fun _ => sound.registered r mine,?_,?_,fun _ _ => ⟨rfl,clear⟩⟩
  · intro early
    change ((s.setRole r role).roles r).phase = _ ∨ ((s.setRole r role).roles r).phase = _ at early
    rw [s.setRole_self,live] at early
    simp at early
  · intro q _ _ _
    refine ⟨rfl,?_⟩
    change ((s.setRole r role).roles r).phase ≠ .removing
    rw [s.setRole_self,live]
    simp

theorem Stream.Sound.getPublisher {s : Stream} (sound : s.Sound) (r : Nat)
    (owner : s.publisher = none ∨ s.publisher = some r) (q : Nat) (other : q ≠ r) : (s.roles q).phase ≠ .live := by
  intro live
  have found := sound.registered q (by rw [live]; trivial)
  rcases owner with free | mine
  · rw [free] at found
    cases found
  · rw [mine] at found
    exact other (Option.some.inj found).symm

theorem stream_keeps : stream.Keeps Stream.Settled Stream.Sound := by
  rintro s ⟨r,act⟩ next sound settled stepped
  change s.step (r,act) = some next at stepped
  unfold Stream.step at stepped
  dsimp only at stepped
  split at stepped
  · rename_i idle
    split at stepped <;> cases stepped
    · exact sound.move r .bound (fun impossible => impossible.elim) (by simp)
        (fun _ => sound.unadded r (Or.inl idle)) (by simp)
    · exact sound.retire r .done trivial (by decide)
  · rename_i bound
    split at stepped <;> cases stepped
    · rename_i free
      exact sound.register r {s.roles r with phase := .live} free
        (Or.inl ⟨rfl,sound.unadded r (Or.inr bound)⟩)
    · exact sound.retire r .ownerCheck trivial (by decide)
  · split at stepped <;> cases stepped
    · rename_i free
      exact sound.register r ⟨.puller,.adding,false⟩ free (Or.inr rfl)
    · exact sound.retire r .done trivial (by decide)
  · rename_i adding
    have mine : (s.roles r).phase.Registered := by rw [adding]; trivial
    split at stepped <;> cases stepped
    · exact sound.add r {s.roles r with phase := .live} mine rfl settled
    · exact sound.move r .rollback (fun _ => mine) (by simp) (by simp) (by simp)
  · cases stepped
    exact sound.leave r .done trivial (by simp)
  · rename_i live
    split at stepped
    · cases stepped
      exact sound
    · rename_i unadded
      split at stepped <;> cases stepped
      · exact sound.add r {s.roles r with ringAdded := true} (by rw [live]; trivial) live
          (settled.resolve_left unadded)
      · exact sound
  · rename_i live
    split at stepped <;> cases stepped
    · exact sound.retire r .ownerCheck trivial (by decide)
    · exact sound.move r .leaving (fun _ => by rw [live]; trivial) (by simp) (by simp) (by simp)
  · split at stepped <;> cases stepped
    · rename_i owner
      exact sound.move r .removing (fun impossible => impossible.elim) (by simp) (by simp)
        (fun _ q other => sound.getPublisher r owner q other)
    · exact sound.retire r .unregistering trivial (by decide)
  · rename_i leaving
    cases stepped
    exact sound.leave r .removing trivial (fun _ => sound.registered r (by rw [leaving]; trivial))
  · rename_i removing
    split at stepped <;> cases stepped
    · exact sound.removeRing r .unregistering removing trivial
    · exact sound.removeRing r .done removing trivial
  · cases stepped
    exact sound.leave r .done trivial (by simp)
  · cases stepped

/-- In every order of the workers in which rings are added outside the other
roles' removal windows, the registered publisher keeps its ring. -/
theorem registered_publisher_keeps_ring (labels : List (Nat × Act)) (s : Stream)
    (admitted : stream.Admits Stream.Settled Stream.start labels)
    (ran : stream.run Stream.start labels = some s) : s.Owned :=
  (stream_keeps.run Stream.start_sound admitted ran).owner

theorem registered_publisher_keeps_ring_takeover :
    ∃ s, stream.run Stream.start [(0,.setRelayParam),(0,.addAtConnect true),(0,.uninit),(0,.leaveMap),
      (0,.removeRing),(1,.accept),(1,.setPush2Publisher),(1,.readData true)] = some s ∧
      s.publisher = some 1 ∧ s.Owned := by
  refine ⟨_,rfl,rfl,registered_publisher_keeps_ring [(0,.setRelayParam),(0,.addAtConnect true),(0,.uninit),
    (0,.leaveMap),(0,.removeRing),(1,.accept),(1,.setPush2Publisher),(1,.readData true)] _ ?_ rfl⟩
  have fresh : ∀ q, q ≠ 0 → (Stream.start.roles q).phase ≠ .removing := fun q _ => by simp [Stream.start]
  refine ⟨trivial,?_⟩
  rintro _ ⟨⟩
  refine ⟨fun q other => by rw [Stream.setRole_other _ 0 q _ other]; exact fresh q other,?_⟩
  rintro _ ⟨⟩
  refine ⟨trivial,?_⟩
  rintro _ ⟨⟩
  refine ⟨trivial,?_⟩
  rintro _ ⟨⟩
  refine ⟨trivial,?_⟩
  rintro _ ⟨⟩
  refine ⟨trivial,?_⟩
  rintro _ ⟨⟩
  refine ⟨trivial,?_⟩
  rintro _ ⟨⟩
  refine ⟨Or.inr ?_,?_⟩
  · intro q other
    by_cases first : q = 0
    · subst q
      decide
    · simp [Stream.move,Stream.setRole,other,first,Stream.start]
  · rintro _ ⟨⟩
    trivial

/-- A puller that has left the publisher map removes the ring that its successor,
registered in between, has just added. -/
theorem puller_teardown_takes_ring :
    ¬ ∀ (labels : List (Nat × Act)) (s : Stream), stream.run Stream.start labels = some s → s.Owned := by
  intro claim
  have owned := claim [(0,.setRelayParam),(0,.addAtConnect true),(0,.uninit),(0,.leaveMap),(1,.accept),
    (1,.setPush2Publisher),(1,.readData true),(0,.removeRing)] _ rfl
  have kept := owned 1 rfl rfl (Or.inl rfl)
  cases kept

theorem Stream.move_self (s : Stream) (r : Nat) (phase : Phase) :
    (s.move r phase).roles r = {s.roles r with phase := phase} := s.setRole_self r _

/-- The operations of `CSLSPublisher::uninit`, with nothing between them. -/
theorem Stream.uninit_run (s : Stream) {r : Nat} (begins : (s.roles r).phase = .ownerCheck) (kind : (s.roles r).kind = .publisher) :
    ∃ (acts : List Act) (last : Stream), stream.run s (acts.map fun act => (r,act)) = some last ∧
      last.publisher = mapPublisherRemove s.publisher r ∧
      last.ring = if s.publisher = none ∨ s.publisher = some r then false else s.ring := by
  by_cases mine : s.publisher = none ∨ s.publisher = some r
  · let removed : Stream := {(s.move r .removing).move r .unregistering with ring := false}
    have asks : stream.step s (r,.getPublisher) = some (s.move r .removing) := by
      simp only [stream,Stream.step,begins,if_pos mine]
    have removes : stream.step (s.move r .removing) (r,.removeRing) = some removed := by
      simp only [stream,Stream.step,Stream.move_self,kind,removed]
    have leaves : stream.step removed (r,.leaveMap) =
        some {removed.move r .done with publisher := mapPublisherRemove s.publisher r} := by
      have there : (removed.roles r).phase = .unregistering :=
        congrArg Role.phase ((s.move r .removing).move_self r .unregistering)
      simp only [stream,Stream.step,there]
      rfl
    refine ⟨[.getPublisher,.removeRing,.leaveMap],{removed.move r .done with publisher := mapPublisherRemove s.publisher r},
      ?_,rfl,(if_pos mine).symm⟩
    simp only [List.map_cons,List.map_nil,Machine.run,asks,removes,leaves,Option.bind_some]
  · have asks : stream.step s (r,.getPublisher) = some (s.move r .unregistering) := by
      simp only [stream,Stream.step,begins,if_neg mine]
    have leaves : stream.step (s.move r .unregistering) (r,.leaveMap) =
        some {(s.move r .unregistering).move r .done with publisher := mapPublisherRemove s.publisher r} := by
      simp only [stream,Stream.step,Stream.move_self]
      rfl
    refine ⟨[.getPublisher,.leaveMap],
      {(s.move r .unregistering).move r .done with publisher := mapPublisherRemove s.publisher r},?_,rfl,(if_neg mine).symm⟩
    simp only [List.map_cons,List.map_nil,Machine.run,asks,leaves,Option.bind_some]

end SrtLiveServer.RingOwnership
