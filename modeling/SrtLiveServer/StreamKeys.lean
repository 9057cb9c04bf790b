import SrtLiveServer.Bytes
import SrtLiveServer.Transition
import Mathlib.Logic.Function.Basic

/-! Who a stream key belongs to. `CSLSMapPublisher` is shared by the listeners and
the puller managers; an admission looks the key up, decides over the incumbent,
binds the role and registers it in separate critical sections, and every role
may be torn down in between. -/
namespace SrtLiveServer.StreamKeys
open Bytes Transition

inductive Kind where
  | publisher
  | puller
deriving DecidableEq

def activeIncumbentRecvWindowMs : Int := 1000

/-- `is_takeover_protected`: only a publisher overrides it. -/
def Kind.isTakeoverProtected : Kind → Bool
  | .publisher => true
  | .puller => false

def hasRecentRecvData (last now within : Int) : Bool :=
  if last = 0 then false else decide (now - last ≤ within)

abbrev Owners : Type := List (Text × Nat)

def Owners.getPublisher (owners : Owners) (key : Text) : Option Nat :=
  (owners.find? fun entry => entry.1 = key).map Prod.snd

def Owners.insert (key : Text) (role : Nat) : Owners → Owners
  | [] => [(key,role)]
  | entry::rest => if key < entry.1 then (key,role)::entry::rest else entry::Owners.insert key role rest

/-- `set_push_2_publisher`; `none` is a key that has a role. -/
def Owners.setPush2Publisher (owners : Owners) (key : Text) (role : Nat) : Option Owners :=
  match owners.getPublisher key with
  | some _ => none
  | none => some (owners.insert key role)

/-- The first entry of the role, whatever its key. -/
def Owners.remove (owners : Owners) (role : Nat) : Owners := owners.eraseP fun entry => entry.2 = role

/-- A takeover check: its clock and when the incumbent had received media by then,
latest first. -/
structure Check where
  incumbent : Nat
  now : Int
  received : List Int

/-- A call of `finish_publisher_accept`, between its critical sections. -/
inductive Accept where
  | idle
  | looked (key : Text) (role : Nat) (incumbent : Option Nat)
  | evicting (role : Nat) (check : Check)
  | binding (key : Text) (role : Nat)
  | registering (key : Text) (role : Nat)
  | refused (role : Nat)

/-- A call of `CSLSPullerManager::set_relay_param`. -/
inductive Relay where
  | idle
  | adding (relay : Nat)
  | rollback (relay : Nat)

structure State where
  owners : Owners
  /-- The role's `m_map_publisher` is set. -/
  bound : Nat → Bool
  kickRequested : Nat → Bool
  lastRecvDataTm : Nat → Int
  received : Nat → List Int
  listeners : Nat → Accept
  managers : Nat → Relay
  /-- The kicks requested so far, each by the check it rests on. -/
  kicks : List Check

def State.start : State where
  owners := []
  bound := fun _ => false
  kickRequested := fun _ => false
  lastRecvDataTm := fun _ => 0
  received := fun _ => []
  listeners := fun _ => .idle
  managers := fun _ => .idle
  kicks := []

def State.accept (s : State) (listener : Nat) (phase : Accept) : State :=
  {s with listeners := Function.update s.listeners listener phase}

def State.relay (s : State) (manager : Nat) (phase : Relay) : State :=
  {s with managers := Function.update s.managers manager phase}

def State.bind (s : State) (role : Nat) : State := {s with bound := Function.update s.bound role true}

def State.uninit (s : State) (role : Nat) : State :=
  if s.bound role then {s with owners := s.owners.remove role} else s

inductive Label where
  | receive (role : Nat) (now : Int)
  /-- The owning worker reaps the role, or its last reference goes. -/
  | teardown (role : Nat)
  | finish (listener : Nat) (key : Text) (role : Nat)
  | check (listener : Nat) (now : Int)
  | kick (listener : Nat)
  | bind (listener : Nat)
  | register (listener : Nat)
  | refuse (listener : Nat)
  | setRelayParam (manager : Nat) (key : Text) (relay : Nat)
  | addRing (manager : Nat) (ok : Bool)
  | rollback (manager : Nat)

variable (kind : Nat → Kind)

def State.step (s : State) : Label → Option State
  | .receive role now =>
    -- a clock since the epoch does not read zero
    if 0 < now then some {s with
      lastRecvDataTm := Function.update s.lastRecvDataTm role now
      received := Function.update s.received role (now::s.received role)}
    else none
  | .teardown role => some (s.uninit role)
  | .finish listener key role => match s.listeners listener with
    | .idle => some (s.accept listener (.looked key role (s.owners.getPublisher key)))
    | _ => none
  | .check listener now => match s.listeners listener with
    | .looked key role none => some (s.accept listener (.binding key role))
    | .looked _ role (some incumbent) =>
      if (kind incumbent).isTakeoverProtected &&
          hasRecentRecvData (s.lastRecvDataTm incumbent) now activeIncumbentRecvWindowMs then
        some (s.accept listener (.refused role))
      else some (s.accept listener (.evicting role ⟨incumbent,now,s.received incumbent⟩))
    | _ => none
  | .kick listener => match s.listeners listener with
    | .evicting role check => some {s.accept listener (.refused role) with
        kickRequested := Function.update s.kickRequested check.incumbent true
        kicks := check::s.kicks}
    | _ => none
  | .bind listener => match s.listeners listener with
    | .binding key role => some ((s.bind role).accept listener (.registering key role))
    | _ => none
  | .register listener => match s.listeners listener with
    | .registering key role => match s.owners.setPush2Publisher key role with
      | some owners => some {s.accept listener .idle with owners := owners}
      | none => some (s.accept listener (.refused role))
    | _ => none
  | .refuse listener => match s.listeners listener with
    | .refused role => some ((s.uninit role).accept listener .idle)
    | _ => none
  | .setRelayParam manager key relay => match s.managers manager with
    | .idle => match s.owners.setPush2Publisher key relay with
      | some owners => some {s.relay manager (.adding relay) with owners := owners}
      | none => some s
    | _ => none
  | .addRing manager ok => match s.managers manager with
    | .adding relay => if ok then some ((s.bind relay).relay manager .idle) else some (s.relay manager (.rollback relay))
    | _ => none
  | .rollback manager => match s.managers manager with
    | .rollback relay => some {s.relay manager .idle with owners := s.owners.remove relay}
    | _ => none

def admissions : Machine State Label := ⟨State.step kind⟩

/-- The role for which the step calls `CSLSMapPublisher::remove`: one that is torn
down, one whose admission was refused, or a relay whose ring was. -/
def State.removes (s : State) : Label → Option Nat
  | .teardown role => if s.bound role then some role else none
  | .refuse listener => match s.listeners listener with
    | .refused role => if s.bound role then some role else none
    | _ => none
  | .rollback manager => match s.managers manager with
    | .rollback relay => some relay
    | _ => none
  | _ => none

theorem Owners.getPublisher_insert (owners : Owners) {key other : Text} (role : Nat) (apart : other ≠ key) :
    (owners.insert other role).getPublisher key = owners.getPublisher key := by
  induction owners with
  | nil => simp [Owners.insert,Owners.getPublisher,apart]
  | cons entry rest ih =>
    unfold Owners.insert
    split
    · simp [Owners.getPublisher,apart]
    · by_cases found : entry.1 = key
      · simp [Owners.getPublisher,found]
      · simpa [Owners.getPublisher,found] using ih

theorem Owners.getPublisher_remove {owners : Owners} {key : Text} {role other : Nat}
    (held : owners.getPublisher key = some role) (apart : other ≠ role) :
    (owners.remove other).getPublisher key = some role := by
  induction owners with
  | nil => cases held
  | cons entry rest ih =>
    by_cases found : entry.1 = key
    · have owner : entry.2 = role := by simpa [Owners.getPublisher,found] using held
      have kept : ¬ entry.2 = other := fun same => apart (same.symm.trans owner)
      rw [Owners.remove,List.eraseP_cons_of_neg (by simpa using kept)]
      simp [Owners.getPublisher,found,owner]
    · have later : Owners.getPublisher rest key = some role := by simpa [Owners.getPublisher,found] using held
      by_cases erased : entry.2 = other
      · simpa [Owners.remove,erased] using later
      · have kept := ih later
        simpa [Owners.remove,Owners.getPublisher,erased,found] using kept

theorem Owners.getPublisher_setPush {owners next : Owners} {key other : Text} {role newcomer : Nat}
    (held : owners.getPublisher key = some role) (set : owners.setPush2Publisher other newcomer = some next) :
    next.getPublisher key = some role := by
  unfold Owners.setPush2Publisher at set
  split at set
  · cases set
  · rename_i free
    cases set
    have apart : other ≠ key := by
      intro same
      rw [same,held] at free
      cases free
    rw [Owners.getPublisher_insert owners newcomer apart]
    exact held

theorem admissions_keep (key : Text) (role : Nat) :
    (admissions kind).Keeps (fun s label => s.removes label ≠ some role)
      (fun s => s.owners.getPublisher key = some role) := by
  intro s label next held spared stepped
  change s.step kind label = some next at stepped
  have uninit : ∀ other, (if s.bound other then some other else none) ≠ some role →
      (s.uninit other).owners.getPublisher key = some role := by
    intro other called
    unfold State.uninit
    split
    · rename_i bound
      rw [if_pos bound] at called
      exact Owners.getPublisher_remove held fun same => called (congrArg some same)
    · exact held
  cases label with
  | receive other now =>
    simp only [State.step] at stepped
    split at stepped <;> cases stepped
    exact held
  | teardown other =>
    cases stepped
    exact uninit other spared
  | finish listener other newcomer =>
    simp only [State.step] at stepped
    split at stepped <;> cases stepped
    exact held
  | check listener now =>
    simp only [State.step] at stepped
    split at stepped
    · cases stepped
      exact held
    · split at stepped <;> cases stepped <;> exact held
    · cases stepped
  | kick listener =>
    simp only [State.step] at stepped
    split at stepped <;> cases stepped
    exact held
  | bind listener =>
    simp only [State.step] at stepped
    split at stepped <;> cases stepped
    exact held
  | register listener =>
    simp only [State.step] at stepped
    split at stepped
    · split at stepped <;> cases stepped
      · rename_i set
        exact Owners.getPublisher_setPush held set
      · exact held
    · cases stepped
  | refuse listener =>
    simp only [State.step] at stepped
    simp only [State.removes] at spared
    split at stepped
    · rename_i other phase
      cases stepped
      rw [phase] at spared
      exact uninit other spared
    · cases stepped
  | setRelayParam manager other relay =>
    simp only [State.step] at stepped
    split at stepped
    · split at stepped <;> cases stepped
      · rename_i set
        exact Owners.getPublisher_setPush held set
      · exact held
    · cases stepped
  | addRing manager ok =>
    simp only [State.step] at stepped
    split at stepped
    · split at stepped <;> cases stepped <;> exact held
    · cases stepped
  | rollback manager =>
    simp only [State.step] at stepped
    simp only [State.removes] at spared
    split at stepped
    · rename_i relay phase
      cases stepped
      rw [phase] at spared
      exact Owners.getPublisher_remove held fun same => spared (congrArg some same)
    · cases stepped

/-- The incumbent is not protected, or its last media is past the window. -/
def Check.Evictable (check : Check) : Prop :=
  (kind check.incumbent).isTakeoverProtected = false ∨
    ∀ t ∈ check.received.head?, activeIncumbentRecvWindowMs < check.now - t

/-- The last-data markers are those of the receptions, and every check that leads
to a kick found an evictable incumbent. -/
structure Justified (s : State) : Prop where
  marker : ∀ role, s.lastRecvDataTm role = ((s.received role).head?).getD 0
  clock : ∀ role, ∀ t ∈ s.received role, 0 < t
  evicting : ∀ listener role check, s.listeners listener = .evicting role check → check.Evictable kind
  kicks : ∀ check ∈ s.kicks, check.Evictable kind

variable {kind : Nat → Kind} {s : State}

theorem State.start_justified : Justified kind State.start where
  marker := fun _ => rfl
  clock := fun _ _ member => by cases member
  evicting := fun _ _ _ phase => by cases phase
  kicks := fun _ member => by cases member

theorem Justified.accept (justified : Justified kind s) (listener : Nat) {phase : Accept}
    (evictable : ∀ role check, phase = .evicting role check → check.Evictable kind) :
    Justified kind (s.accept listener phase) := by
  refine {justified with evicting := ?_}
  intro other role check evicts
  change Function.update s.listeners listener phase other = _ at evicts
  by_cases same : other = listener
  · subst other
    rw [Function.update_self] at evicts
    exact evictable role check evicts
  · rw [Function.update_of_ne same] at evicts
    exact justified.evicting other role check evicts

theorem Justified.stale (justified : Justified kind s) {role : Nat} {now : Int}
    (stale : hasRecentRecvData (s.lastRecvDataTm role) now activeIncumbentRecvWindowMs = false) :
    ∀ t ∈ (s.received role).head?, activeIncumbentRecvWindowMs < now - t := by
  intro t latest
  have marker : s.lastRecvDataTm role = t := by
    rw [justified.marker role,Option.mem_def.mp latest]
    rfl
  have positive := justified.clock role t (List.mem_of_mem_head? latest)
  rw [marker,hasRecentRecvData,if_neg (Int.ne_of_gt positive)] at stale
  exact Int.not_le.mp (of_decide_eq_false stale)

theorem Justified.receive (justified : Justified kind s) (role : Nat) {now : Int} (positive : 0 < now) :
    Justified kind {s with
      lastRecvDataTm := Function.update s.lastRecvDataTm role now
      received := Function.update s.received role (now::s.received role)} := by
  refine {justified with marker := ?_,clock := ?_}
  · intro other
    dsimp only
    by_cases same : other = role
    · subst other
      rw [Function.update_self,Function.update_self]
      rfl
    · rw [Function.update_of_ne same,Function.update_of_ne same]
      exact justified.marker other
  · intro other t member
    dsimp only at member
    by_cases same : other = role
    · subst other
      rw [Function.update_self] at member
      rcases List.mem_cons.mp member with latest | old
      · rw [latest]
        exact positive
      · exact justified.clock role t old
    · rw [Function.update_of_ne same] at member
      exact justified.clock other t member

theorem Justified.check (justified : Justified kind s) {listener role incumbent : Nat} {now : Int}
    (evictable : ((kind incumbent).isTakeoverProtected &&
      hasRecentRecvData (s.lastRecvDataTm incumbent) now activeIncumbentRecvWindowMs) = false) :
    Justified kind (s.accept listener (.evicting role ⟨incumbent,now,s.received incumbent⟩)) := by
  apply justified.accept
  intro _ check phase
  cases phase
  rcases Bool.and_eq_false_iff.mp evictable with exposed | stale
  · exact Or.inl exposed
  · exact Or.inr (justified.stale stale)

theorem Justified.kick (justified : Justified kind s) {listener role : Nat} {check : Check}
    (phase : s.listeners listener = .evicting role check) :
    Justified kind {s.accept listener (.refused role) with
      kickRequested := Function.update s.kickRequested check.incumbent true
      kicks := check::s.kicks} := by
  have moved : Justified kind (s.accept listener (.refused role)) :=
    justified.accept listener fun _ _ refused => by cases refused
  refine {moved with kicks := ?_}
  intro other member
  rcases List.mem_cons.mp member with rfl | old
  · exact justified.evicting listener role other phase
  · exact justified.kicks other old

theorem Justified.uninit (justified : Justified kind s) (role : Nat) : Justified kind (s.uninit role) := by
  unfold State.uninit
  split
  · exact {justified with}
  · exact justified

theorem admissions_justified (kind : Nat → Kind) :
    (admissions kind).Keeps (fun _ _ => True) (Justified kind) := by
  intro s label next justified _ stepped
  change s.step kind label = some next at stepped
  cases label with
  | receive role now =>
    simp only [State.step] at stepped
    split at stepped <;> cases stepped
    exact justified.receive role ‹_›
  | teardown role =>
    cases stepped
    exact justified.uninit role
  | finish listener key role =>
    simp only [State.step] at stepped
    split at stepped <;> cases stepped
    exact justified.accept listener fun _ _ phase => by cases phase
  | check listener now =>
    simp only [State.step] at stepped
    split at stepped
    · cases stepped
      exact justified.accept listener fun _ _ phase => by cases phase
    · split at stepped
      · cases stepped
        exact justified.accept listener fun _ _ phase => by cases phase
      · rename_i evictable
        cases stepped
        exact justified.check (Bool.not_eq_true _ ▸ evictable)
    · cases stepped
  | kick listener =>
    simp only [State.step] at stepped
    split at stepped
    · rename_i phase
      cases stepped
      exact justified.kick phase
    · cases stepped
  | bind listener =>
    simp only [State.step] at stepped
    split at stepped
    · rename_i role _
      cases stepped
      have bound : Justified kind (s.bind role) := {justified with}
      exact bound.accept listener fun _ _ phase => by cases phase
    · cases stepped
  | register listener =>
    simp only [State.step] at stepped
    split at stepped
    · have moved : ∀ phase, (∀ role check, phase ≠ Accept.evicting role check) → Justified kind (s.accept listener phase) :=
        fun _ other => justified.accept listener fun role check evicts => absurd evicts (other role check)
      split at stepped <;> cases stepped
      · exact {moved .idle (fun _ _ phase => by cases phase) with}
      · exact moved _ fun _ _ phase => by cases phase
    · cases stepped
  | refuse listener =>
    simp only [State.step] at stepped
    split at stepped <;> cases stepped
    exact (justified.uninit _).accept listener fun _ _ phase => by cases phase
  | setRelayParam manager key relay =>
    simp only [State.step] at stepped
    split at stepped
    · split at stepped <;> cases stepped
      · exact {justified with}
      · exact justified
    · cases stepped
  | addRing manager ok =>
    simp only [State.step] at stepped
    split at stepped
    · split at stepped <;> cases stepped <;> exact {justified with}
    · cases stepped
  | rollback manager =>
    simp only [State.step] at stepped
    split at stepped <;> cases stepped
    exact {justified with}

/-- In every interleaving of admissions, relays and teardowns: a key stays with its
role through every continuation that does not call `remove` for that role, and a
kick was requested only where its check found an evictable incumbent. -/
theorem stream_key_ownership (kind : Nat → Kind) (labels : List Label) (s : State)
    (ran : (admissions kind).run State.start labels = some s) :
    (∀ key role, s.owners.getPublisher key = some role → ∀ more next, (admissions kind).run s more = some next →
      (admissions kind).Admits (fun t label => t.removes label ≠ some role) s more →
      next.owners.getPublisher key = some role) ∧
      ∀ check ∈ s.kicks, check.Evictable kind := by
  have justified : Justified kind s := (admissions_justified kind).run_all State.start_justified ran
  refine ⟨?_,justified.kicks⟩
  intro key role held more next later spared
  exact (admissions_keep kind key role).run held spared later

/-- Two listeners admit a publisher each under one key; the second finds the key
free, loses the registration and is torn down. -/
def contested : List Label :=
  [.receive 1 3,.finish 0 (ascii "live/cam") 1,.finish 1 (ascii "live/cam") 2,.check 0 5,.check 1 5,.bind 0,.bind 1,.register 0]

/-- A third one comes when the first has been silent for too long. -/
def lost : List Label :=
  [.register 1,.refuse 1,.teardown 2,.finish 0 (ascii "live/cam") 3,.check 0 2000,.kick 0,.refuse 0]

theorem stream_key_ownership_contested :
    ∃ s next, (admissions fun _ => .publisher).run State.start contested = some s ∧
      (admissions fun _ => .publisher).run s lost = some next ∧
      s.owners.getPublisher (ascii "live/cam") = some 1 ∧ next.owners.getPublisher (ascii "live/cam") = some 1 ∧
      next.kicks = [⟨1,2000,[3]⟩] ∧ ∀ check ∈ next.kicks, check.Evictable fun _ => .publisher := by
  refine ⟨_,_,rfl,rfl,by decide,?_,rfl,?_⟩
  · apply (stream_key_ownership (fun _ => .publisher) contested _ rfl).1 (ascii "live/cam") 1 (by decide) lost _ rfl
    iterate 7
      refine ⟨by decide,fun next stepped => ?_⟩
      cases stepped
    trivial
  · exact (stream_key_ownership (fun _ => .publisher) (contested ++ lost) _ rfl).2

end SrtLiveServer.StreamKeys
