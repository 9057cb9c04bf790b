import SrtLiveServer.Custody
import SrtLiveServer.PublisherAuth

/-! Who writes into the ring of a stream. A connection is held by one listener until it
is registered; from then on, until its teardown, it is the publisher of its stream, and
no other connection of that stream is served. -/
namespace SrtLiveServer.PublisherAuth
open Bytes Transition Custody

inductive Stage where
  | offered
  | served
  | retired
deriving DecidableEq

def Place.stage : Place → Stage
  | .listener => .offered
  | .list | .worker => .served
  | .waitHttp | .dropped => .retired

/-- On the role list, or in a worker's role map. -/
abbrev Role.Live (role : Role) : Prop := role.place.stage = .served

section Roles

/-- Another state of the same connection, at the same stage. -/
structure Role.Alike (role next : Role) : Prop where
  key : next.key = role.key
  stage : next.place.stage = role.place.stage
  bound : role.bound = true → next.bound = true
  shut : role.srt = false → next.srt = false
  closed : (role.state = .uninit → role.srt = false) → next.state = .uninit → next.srt = false
  passed : role.httpPassed = true → next.httpPassed = true
  kicked : role.kickRequested = true → next.kickRequested = true

theorem Role.Alike.refl (role : Role) : role.Alike role := ⟨rfl,rfl,id,id,id,id,id⟩

theorem Role.Alike.trans {first second third : Role} (before : first.Alike second) (after : second.Alike third) :
    first.Alike third where
  key := after.key.trans before.key
  stage := after.stage.trans before.stage
  bound := fun bound => after.bound (before.bound bound)
  shut := fun shut => after.shut (before.shut shut)
  closed := fun closed => after.closed (before.closed closed)
  passed := fun passed => after.passed (before.passed passed)
  kicked := fun kicked => after.kicked (before.kicked kicked)

variable (role : Role)

theorem Role.onClose_alike : role.Alike role.onClose := by
  unfold Role.onClose
  split <;> exact ⟨rfl,rfl,id,id,id,id,id⟩

theorem Role.invalidSrt_alike : role.Alike role.invalidSrt := by
  unfold Role.invalidSrt
  split
  · have closed : role.Alike {role with srt := false} := ⟨rfl,rfl,id,fun _ => rfl,fun _ _ => rfl,id,id⟩
    exact closed.trans (Role.onClose_alike _)
  · exact Role.Alike.refl role

theorem Role.markInvalid_alike : role.Alike role.markInvalid := by
  have marked : role.Alike {role with state := .invalid} := ⟨rfl,rfl,id,id,fun _ => RoleState.noConfusion,id,id⟩
  exact marked.trans (Role.invalidSrt_alike _)

theorem Role.uninit_alike : role.Alike role.uninit ∧
    ((role.state = .uninit → role.srt = false) → role.uninit.srt = false) := by
  by_cases live : role.state = .uninit
  · have idle : role.Alike {role with httpFuture := none,deadline := 0} := ⟨rfl,rfl,id,id,id,id,id⟩
    unfold Role.uninit
    dsimp only
    rw [if_pos live]
    exact ⟨idle,fun closed => closed live⟩
  · have shut := Role.uninit_closed role live
    unfold Role.uninit at shut ⊢
    dsimp only at shut ⊢
    rw [if_neg live] at shut ⊢
    have alike := Role.invalidSrt_alike {role with httpFuture := none,deadline := 0,state := .uninit}
    exact ⟨⟨alike.key,alike.stage,alike.bound,fun _ => shut,fun _ _ => shut,alike.passed,alike.kicked⟩,fun _ => shut⟩

theorem Role.checkHttpPassed_alike (now : Nat) : role.Alike (role.checkHttpPassed now).2 := by
  have quiet : ∀ future deadline, role.Alike {role with httpFuture := future,deadline := deadline} :=
    fun _ _ => ⟨rfl,rfl,id,id,id,id,id⟩
  unfold Role.checkHttpPassed
  split
  · exact Role.Alike.refl role
  split
  · exact (quiet none 0).trans (Role.markInvalid_alike _)
  split
  · exact (quiet role.httpFuture 0).trans (Role.markInvalid_alike _)
  · exact Role.Alike.refl role
  · dsimp only
    split
    · exact (quiet none 0).trans (Role.invalidSrt_alike _)
    · exact ⟨rfl,rfl,id,id,id,fun _ => rfl,id⟩

theorem Check.events_noPut (check : Check) (p now q : Nat) : .put q ∉ check.events p now := by
  cases check <;> simp [Check.events]

/-- What a read of the role can do to the ring of its stream. -/
structure Role.Reads (p now : Nat) (ring : Bool) (result : ReadResult) : Prop where
  alike : (role.checkHttpPassed now).2.Alike result.role
  kept : ring = true → result.ring = true
  fills : result.ring = true → ring = true ∨ role.srt = true
  puts : ∀ q, .put q ∈ result.events → q = p ∧ result.ring = true ∧ role.srt = true

theorem Role.handlerReadData_reads (p now : Nat) (received : Received) (ring room : Bool) :
    role.Reads p now ring (role.handlerReadData p now received ring room) := by
  have checked := role.checkHttpPassed_alike now
  have silent := (role.checkHttpPassed now).1.events_noPut p now
  have idle : ∀ {next : Role} (ok : Bool), (role.checkHttpPassed now).2.Alike next →
      role.Reads p now ring ⟨next,(role.checkHttpPassed now).1.events p now,ring,ok⟩ :=
    fun _ alike => ⟨alike,id,.inl,fun q put => absurd put (silent q)⟩
  unfold Role.handlerReadData
  dsimp only
  split
  · exact idle _ (Role.Alike.refl _)
  split
  · exact idle _ (Role.Alike.refl _)
  rename_i isOpen
  have isOpen : role.srt = true := by
    by_contra shut
    rw [checked.shut (eq_false_of_ne_true shut)] at isOpen
    exact isOpen rfl
  cases received with
  | noData => exact idle _ (Role.Alike.refl _)
  | peerGone => exact idle _ (Role.Alike.refl _)
  | misaligned => exact idle _ (Role.invalidSrt_alike _)
  | overBitrate => exact idle _ (Role.invalidSrt_alike _)
  | packet =>
    dsimp only
    split
    · exact idle _ (Role.Alike.refl _)
    split
    · split
      · rename_i present
        refine ⟨Role.Alike.refl _,id,.inl,fun q put => ?_⟩
        obtain early | last := List.mem_append.mp put
        · exact absurd early (silent q)
        · cases List.mem_singleton.mp last
          exact ⟨rfl,present,isOpen⟩
      · exact idle _ (Role.Alike.refl _)
    split
    · have added : (role.checkHttpPassed now).2.Alike {(role.checkHttpPassed now).2 with ringAdded := true} :=
        ⟨rfl,rfl,id,id,id,id,id⟩
      refine ⟨added,fun _ => rfl,fun _ => .inr isOpen,fun q put => ?_⟩
      obtain early | last := List.mem_append.mp put
      · exact absurd early (silent q)
      · rw [List.mem_pair] at last
        obtain added | put := last
        · cases added
        · cases put
          exact ⟨rfl,rfl,isOpen⟩
    · exact idle _ (Role.invalidSrt_alike _)

end Roles

section Places

def Phase.held : Phase → List Nat
  | .idle => []
  | .asked p | .finishing p | .publishing p => [p]

/-- The connections a listener holds. -/
def World.holds (w : World) (l : Nat) : List Nat := (w.listeners l).pending ++ (w.listeners l).phase.held

/-- No puller of stream `key` is between the two removals of its teardown. -/
abbrev World.Settled (w : World) (key : Text) : Prop := (w.relays key).leaving = 0

/-- Whoever is registered for stream `key` may have its ring. -/
abbrev World.Owned (w : World) (key : Text) : Prop :=
  w.publishers key ≠ none ∧ (w.publishers key = some .relay → (w.relays key).phase ≠ .rollback)

structure World.Placed (w : World) : Prop where
  exclusive : Exclusive w.holds
  held : ∀ p, Held w.holds p → ∃ role, w.roles[p]? = some role ∧ role.place = .listener
  publishing : ∀ l p, (w.listeners l).phase = .publishing p → ∃ role, w.roles[p]? = some role ∧ role.bound = true
  live : ∀ (p : Nat) (role : Role), w.roles[p]? = some role → role.Live → w.publishers role.key = some (.publisher p)
  retired : ∀ (p : Nat) (role : Role), w.roles[p]? = some role → role.place.stage = .retired → role.srt = false
  closed : ∀ (p : Nat) (role : Role), w.roles[p]? = some role → role.state = .uninit → role.srt = false
  owner : ∀ key p, w.publishers key = some (.publisher p) →
    ∃ role, w.roles[p]? = some role ∧ role.key = key ∧ role.Live ∧ role.bound = true
  ring : ∀ key, w.Settled key → w.rings key = true → w.Owned key

theorem World.start_placed : World.start.Placed where
  exclusive := ⟨fun _ => List.nodup_nil,fun none => nomatch none⟩
  held := fun _ held => held.elim fun _ none => absurd none List.not_mem_nil
  publishing := fun _ _ none => nomatch none
  live := fun _ _ none => nomatch none
  retired := fun _ _ none => nomatch none
  closed := fun _ _ none => nomatch none
  owner := fun _ _ none => nomatch none
  ring := fun _ _ none => nomatch none

theorem World.Owned.congr {w later : World} {key : Text} (owned : w.Owned key)
    (publishers : later.publishers key = w.publishers key) (relays : later.relays key = w.relays key) : later.Owned key :=
  ⟨publishers ▸ owned.1,fun relayed => relays ▸ owned.2 (publishers ▸ relayed)⟩

theorem World.owned_publisher {w : World} {key : Text} {p : Nat} (owns : w.publishers key = some (.publisher p)) :
    w.Owned key :=
  ⟨owns ▸ Option.some_ne_none _,fun relayed => by cases owns.symm.trans relayed⟩

variable {w : World} {p : Nat} {role next : Role}

theorem Role.Alike.offered (alike : role.Alike next) (offered : role.place = .listener) : next.place = .listener := by
  have stage := alike.stage
  rw [offered] at stage
  cases place : next.place with
  | listener => rfl
  | list | worker | waitHttp | dropped =>
    rw [place] at stage
    cases stage

theorem World.setRole_cases (added : List Event) {q : Nat} {holder : Role}
    (entry : (w.setRole p next added).roles[q]? = some holder) : q = p ∧ holder = next ∨ q ≠ p ∧ w.roles[q]? = some holder := by
  change (w.roles.set p next)[q]? = some holder at entry
  by_cases same : q = p
  · subst q
    obtain ⟨bound,_⟩ := List.getElem?_eq_some_iff.mp entry
    rw [List.getElem?_set_self (by rwa [List.length_set] at bound)] at entry
    exact .inl ⟨rfl,(Option.some.inj entry).symm⟩
  · rw [List.getElem?_set_ne (Ne.symm same)] at entry
    exact .inr ⟨same,entry⟩

theorem World.setRole_other (added : List Event) {q : Nat} (other : q ≠ p) :
    (w.setRole p next added).roles[q]? = w.roles[q]? := List.getElem?_set_ne (Ne.symm other)

theorem World.Placed.turn (placed : w.Placed) (found : w.roles[p]? = some role) (alike : role.Alike next)
    (added : List Event) : (w.setRole p next added).Placed := by
  have there := w.roles_setRole found next added
  constructor
  · exact placed.exclusive
  · intro q held
    obtain ⟨holder,entry,offered⟩ := placed.held q held
    by_cases same : q = p
    · subst q
      cases found.symm.trans entry
      exact ⟨next,there,alike.offered offered⟩
    · exact ⟨holder,(World.setRole_other added same).trans entry,offered⟩
  · intro l q publishing
    obtain ⟨holder,entry,bound⟩ := placed.publishing l q publishing
    by_cases same : q = p
    · subst q
      cases found.symm.trans entry
      exact ⟨next,there,alike.bound bound⟩
    · exact ⟨holder,(World.setRole_other added same).trans entry,bound⟩
  · intro q holder entry live
    obtain ⟨rfl,rfl⟩ | ⟨_,before⟩ := World.setRole_cases added entry
    · rw [alike.key]
      exact placed.live q role found (alike.stage.symm.trans live)
    · exact placed.live q holder before live
  · intro q holder entry retired
    obtain ⟨rfl,rfl⟩ | ⟨_,before⟩ := World.setRole_cases added entry
    · exact alike.shut (placed.retired q role found (alike.stage.symm.trans retired))
    · exact placed.retired q holder before retired
  · intro q holder entry
    obtain ⟨rfl,rfl⟩ | ⟨_,before⟩ := World.setRole_cases added entry
    · exact alike.closed (placed.closed q role found)
    · exact placed.closed q holder before
  · intro key q owns
    obtain ⟨holder,entry,mine,live,bound⟩ := placed.owner key q owns
    by_cases same : q = p
    · subst q
      cases found.symm.trans entry
      exact ⟨next,there,alike.key.trans mine,alike.stage.trans live,alike.bound bound⟩
    · exact ⟨holder,(World.setRole_other added same).trans entry,mine,live,bound⟩
  · exact placed.ring

theorem World.Placed.refill (placed : w.Placed) (key : Text) (ring : Bool)
    (owned : w.Settled key → ring = true → w.Owned key) :
    World.Placed {w with rings := Function.update w.rings key ring} := by
  refine ⟨placed.exclusive,placed.held,placed.publishing,placed.live,placed.retired,placed.closed,placed.owner,?_⟩
  intro other settled present
  change Function.update w.rings key ring other = true at present
  by_cases same : other = key
  · subst other
    rw [Function.update_self] at present
    exact (owned settled present).congr rfl rfl
  · rw [Function.update_of_ne same] at present
    exact (placed.ring other settled present).congr rfl rfl

theorem World.holds_setListener (l : Nat) (listener : Listener) :
    (w.setListener l listener).holds = Function.update w.holds l (listener.pending ++ listener.phase.held) := by
  funext k
  by_cases same : k = l
  · subst k
    simp [World.holds,World.setListener]
  · simp [World.holds,World.setListener,Function.update_of_ne same]

theorem World.Placed.release (placed : w.Placed) (l : Nat) (listener : Listener)
    (fewer : (listener.pending ++ listener.phase.held).Subperm (w.holds l))
    (publishing : ∀ q, listener.phase = .publishing q → ∃ role, w.roles[q]? = some role ∧ role.bound = true) :
    (w.setListener l listener).Placed := by
  have within : ∀ k, ((w.setListener l listener).holds k).Subperm (w.holds k) := by
    intro k
    rw [World.holds_setListener]
    by_cases same : k = l
    · subst k
      rwa [Function.update_self]
    · rw [Function.update_of_ne same]
  refine ⟨placed.exclusive.shrink within,?_,?_,placed.live,placed.retired,placed.closed,placed.owner,placed.ring⟩
  · rintro q ⟨k,among⟩
    exact placed.held q ⟨k,(within k).subset among⟩
  · intro k q phase
    by_cases same : k = l
    · subst k
      simp only [World.setListener,Function.update_self] at phase
      exact publishing q phase
    · simp only [World.setListener,Function.update_of_ne same] at phase
      exact placed.publishing k q phase

theorem World.Placed.released (placed : w.Placed) {l : Nat} (listener : Listener) (mine : p ∈ w.holds l)
    (dropped : p ∉ listener.pending ++ listener.phase.held) : ¬ Held (w.setListener l listener).holds p := by
  rintro ⟨k,among⟩
  rw [World.holds_setListener] at among
  by_cases same : k = l
  · subst k
    rw [Function.update_self] at among
    exact dropped among
  · rw [Function.update_of_ne same] at among
    exact same (placed.exclusive.unique among mine)

theorem World.Placed.free (placed : w.Placed) (found : w.roles[p]? = some role) (past : role.place ≠ .listener) :
    ¬ Held w.holds p := by
  intro held
  obtain ⟨holder,entry,offered⟩ := placed.held p held
  cases found.symm.trans entry
  exact past offered

theorem World.Placed.uninit (placed : w.Placed) (found : w.roles[p]? = some role) (alike : role.Alike next)
    (free : ¬ Held w.holds p) (place : Place) (retires : place.stage = .retired) : (w.uninit p next place).Placed := by
  have shut := (Role.uninit_alike next).2 (alike.closed (placed.closed p role found))
  -- an owned stream is that of a bound role, so its owner leaves the map with the ring
  have left : ∀ other q, (w.uninit p next place).publishers other = some (.publisher q) →
      q ≠ p ∧ w.publishers other = some (.publisher q) := by
    intro other q owns
    change (if next.bound then fun key => if w.publishers key = some (.publisher p) then none else w.publishers key
      else w.publishers) other = some (.publisher q) at owns
    split at owns
    · dsimp only at owns
      split at owns
      · cases owns
      · rename_i others
        exact ⟨fun same => others (same ▸ owns),owns⟩
    · rename_i unbound
      refine ⟨fun same => ?_,owns⟩
      subst q
      obtain ⟨holder,entry,_,_,bound⟩ := placed.owner other p owns
      cases found.symm.trans entry
      exact unbound (alike.bound bound)
  have stays : ∀ other, w.publishers other ≠ some (.publisher p) →
      (w.uninit p next place).publishers other = w.publishers other := by
    intro other others
    change (if next.bound then fun key => if w.publishers key = some (.publisher p) then none else w.publishers key
      else w.publishers) other = w.publishers other
    split
    · exact if_neg others
    · rfl
  constructor
  · exact placed.exclusive
  · intro q held
    obtain ⟨holder,entry,offered⟩ := placed.held q held
    have apart : q ≠ p := fun same => free (same ▸ held)
    exact ⟨holder,(World.setRole_other [] apart).trans entry,offered⟩
  · intro l q publishing
    obtain ⟨holder,entry,bound⟩ := placed.publishing l q publishing
    have apart : q ≠ p := by
      rintro rfl
      have publishing : (w.listeners l).phase = .publishing q := publishing
      exact free ⟨l,List.mem_append_right _ (publishing ▸ List.mem_singleton.mpr rfl)⟩
    exact ⟨holder,(World.setRole_other [] apart).trans entry,bound⟩
  · intro q holder entry live
    obtain ⟨rfl,rfl⟩ | ⟨apart,before⟩ := World.setRole_cases [] entry
    · cases retires.symm.trans live
    · have owns := placed.live q holder before live
      rw [stays holder.key (owns ▸ fun same => apart (Owner.publisher.inj (Option.some.inj same)))]
      exact owns
  · intro q holder entry retired
    obtain ⟨rfl,rfl⟩ | ⟨_,before⟩ := World.setRole_cases [] entry
    · exact shut
    · exact placed.retired q holder before retired
  · intro q holder entry
    obtain ⟨rfl,rfl⟩ | ⟨_,before⟩ := World.setRole_cases [] entry
    · exact fun _ => shut
    · exact placed.closed q holder before
  · intro other q owns
    obtain ⟨apart,before⟩ := left other q owns
    obtain ⟨holder,entry,mine,live,bound⟩ := placed.owner other q before
    exact ⟨holder,(World.setRole_other [] apart).trans entry,mine,live,bound⟩
  · intro other settled present
    change (if next.bound ∧ (w.publishers next.key = none ∨ w.publishers next.key = some (.publisher p)) then
      Function.update w.rings next.key false else w.rings) other = true at present
    by_cases mine : w.publishers other = some (.publisher p)
    · obtain ⟨holder,entry,same,_,bound⟩ := placed.owner other p mine
      cases found.symm.trans entry
      have same := alike.key.trans same
      rw [if_pos ⟨alike.bound bound,.inr (same ▸ mine)⟩,same,Function.update_self] at present
      cases present
    · refine (placed.ring other settled ?_).congr (stays other mine) rfl
      split at present
      · by_cases same : other = next.key
        · rw [same,Function.update_self] at present
          cases present
        · rwa [Function.update_of_ne same] at present
      · exact present

theorem World.Placed.addRole (placed : w.Placed) (role : Role) (added : List Event) (unserved : ¬ role.Live)
    (retired : role.place.stage = .retired → role.srt = false) (closed : role.state = .uninit → role.srt = false) :
    World.Placed {w with roles := w.roles ++ [role],log := w.log ++ added} := by
  have old : ∀ {q : Nat} {holder : Role}, w.roles[q]? = some holder → (w.roles ++ [role])[q]? = some holder := by
    intro q holder entry
    obtain ⟨bound,_⟩ := List.getElem?_eq_some_iff.mp entry
    exact (List.getElem?_append_left bound).trans entry
  have either : ∀ {q : Nat} {holder : Role}, (w.roles ++ [role])[q]? = some holder →
      w.roles[q]? = some holder ∨ holder = role := by
    intro q holder entry
    obtain inside | outside := Nat.lt_or_ge q w.roles.length
    · exact .inl ((List.getElem?_append_left inside).symm.trans entry)
    · rw [List.getElem?_append_right outside] at entry
      exact .inr (List.mem_singleton.mp (List.mem_of_getElem? entry))
  refine ⟨placed.exclusive,?_,?_,?_,?_,?_,?_,placed.ring⟩
  · intro q held
    obtain ⟨holder,entry,offered⟩ := placed.held q held
    exact ⟨holder,old entry,offered⟩
  · intro l q publishing
    obtain ⟨holder,entry,bound⟩ := placed.publishing l q publishing
    exact ⟨holder,old entry,bound⟩
  · intro q holder entry live
    obtain before | rfl := either entry
    · exact placed.live q holder before live
    · exact absurd live unserved
  · intro q holder entry
    obtain before | rfl := either entry
    · exact placed.retired q holder before
    · exact retired
  · intro q holder entry
    obtain before | rfl := either entry
    · exact placed.closed q holder before
    · exact closed
  · intro key q owns
    obtain ⟨holder,entry,mine⟩ := placed.owner key q owns
    exact ⟨holder,old entry,mine⟩

theorem World.Placed.take (placed : w.Placed) {l : Nat} (listener : Listener) (free : ¬ Held w.holds p)
    (found : w.roles[p]? = some role) (offered : role.place = .listener)
    (gains : (listener.pending ++ listener.phase.held).Perm ([p] ++ w.holds l))
    (quiet : ∀ q, listener.phase ≠ .publishing q) : (w.setListener l listener).Placed := by
  have mine : (w.setListener l listener).holds l = listener.pending ++ listener.phase.held := by
    rw [World.holds_setListener,Function.update_self]
  have others : ∀ k, k ≠ l → (w.setListener l listener).holds k = w.holds k := by
    intro k away
    rw [World.holds_setListener,Function.update_of_ne away]
  refine ⟨?_,?_,?_,placed.live,placed.retired,placed.closed,placed.owner,placed.ring⟩
  · refine placed.exclusive.receive (List.pairwise_singleton _ p) (fun token new => ?_) (mine ▸ gains) others
    rwa [List.mem_singleton.mp new]
  · rintro q ⟨k,among⟩
    by_cases same : k = l
    · subst k
      rw [mine] at among
      obtain new | before := List.mem_append.mp (gains.subset among)
      · rw [List.mem_singleton.mp new]
        exact ⟨role,found,offered⟩
      · exact placed.held q ⟨l,before⟩
    · rw [others k same] at among
      exact placed.held q ⟨k,among⟩
  · intro k q phase
    by_cases same : k = l
    · subst k
      simp only [World.setListener,Function.update_self] at phase
      exact absurd phase (quiet q)
    · simp only [World.setListener,Function.update_of_ne same] at phase
      exact placed.publishing k q phase

theorem World.Placed.register (placed : w.Placed) (found : w.roles[p]? = some role) (free : ¬ Held w.holds p)
    (bound : role.bound = true) (nobody : w.publishers role.key = none) (added : List Event) :
    World.Placed {w.setRole p {role with place := .list} added with
      publishers := Function.update w.publishers role.key (some (.publisher p))} := by
  have there := w.roles_setRole found {role with place := .list} added
  have elsewhere : ∀ {key : Text} {owner : Owner}, w.publishers key = some owner →
      Function.update w.publishers role.key (some (.publisher p)) key = some owner := by
    intro key owner owns
    have apart : key ≠ role.key := by
      rintro rfl
      exact absurd (nobody.symm.trans owns) (Option.some_ne_none owner).symm
    exact (Function.update_of_ne apart _ _).trans owns
  refine ⟨placed.exclusive,?_,?_,?_,?_,?_,?_,?_⟩
  · intro q held
    obtain ⟨holder,entry,offered⟩ := placed.held q held
    have apart : q ≠ p := fun same => free (same ▸ held)
    exact ⟨holder,(World.setRole_other added apart).trans entry,offered⟩
  · intro l q publishing
    obtain ⟨holder,entry,ready⟩ := placed.publishing l q publishing
    by_cases same : q = p
    · subst q
      exact ⟨_,there,bound⟩
    · exact ⟨holder,(World.setRole_other added same).trans entry,ready⟩
  · intro q holder entry live
    obtain ⟨rfl,rfl⟩ | ⟨_,before⟩ := World.setRole_cases added entry
    · exact Function.update_self _ _ _
    · exact elsewhere (placed.live q holder before live)
  · intro q holder entry retired
    obtain ⟨rfl,rfl⟩ | ⟨_,before⟩ := World.setRole_cases added entry
    · cases retired
    · exact placed.retired q holder before retired
  · intro q holder entry
    obtain ⟨rfl,rfl⟩ | ⟨_,before⟩ := World.setRole_cases added entry
    · exact placed.closed q role found
    · exact placed.closed q holder before
  · intro key q owns
    change Function.update w.publishers role.key (some (.publisher p)) key = some (.publisher q) at owns
    by_cases same : key = role.key
    · rw [same,Function.update_self] at owns
      cases owns
      exact ⟨_,there,same.symm,rfl,bound⟩
    · rw [Function.update_of_ne same] at owns
      obtain ⟨holder,entry,mine⟩ := placed.owner key q owns
      have apart : q ≠ p := by
        rintro rfl
        cases found.symm.trans entry
        exact same mine.1.symm
      exact ⟨holder,(World.setRole_other added apart).trans entry,mine⟩
  · intro key settled present
    have owned := placed.ring key settled present
    obtain ⟨owner,owns⟩ := Option.ne_none_iff_exists'.mp owned.1
    exact owned.congr ((elsewhere owns).trans owns.symm) rfl

theorem World.Placed.setStream (placed : w.Placed) (key : Text) {owner : Option Owner} {ring : Bool} {relays : Relays}
    (strangers : ∀ q, owner = some (.publisher q) ↔ w.publishers key = some (.publisher q))
    (owned : relays.leaving = 0 → ring = true → owner ≠ none ∧ (owner = some .relay → relays.phase ≠ .rollback)) :
    (w.setStream key owner ring relays).Placed := by
  refine ⟨placed.exclusive,placed.held,placed.publishing,?_,placed.retired,placed.closed,?_,?_⟩
  · intro q holder entry live
    have owns := placed.live q holder entry live
    change Function.update w.publishers key owner holder.key = some (.publisher q)
    by_cases same : holder.key = key
    · rw [same,Function.update_self]
      exact (strangers q).mpr (same ▸ owns)
    · rwa [Function.update_of_ne same]
  · intro other q owns
    change Function.update w.publishers key owner other = some (.publisher q) at owns
    by_cases same : other = key
    · rw [same,Function.update_self] at owns
      exact same ▸ placed.owner key q ((strangers q).mp owns)
    · rw [Function.update_of_ne same] at owns
      exact placed.owner other q owns
  · intro other settled present
    change (Function.update w.relays key relays other).leaving = 0 at settled
    change Function.update w.rings key ring other = true at present
    by_cases same : other = key
    · rw [same,Function.update_self] at settled present
      obtain ⟨someone,added⟩ := owned settled present
      constructor
      · change Function.update w.publishers key owner other ≠ none
        rwa [same,Function.update_self]
      · change Function.update w.publishers key owner other = some .relay → (Function.update w.relays key relays other).phase ≠ _
        rwa [same,Function.update_self,Function.update_self]
    · rw [Function.update_of_ne same] at settled present
      exact (placed.ring other settled present).congr (Function.update_of_ne same _ _) (Function.update_of_ne same _ _)

end Places

section Steps

variable {w : World} {p : Nat} {role next : Role}

/-- A later state of a connection, which may have been torn down in between. -/
structure Role.Ages (role next : Role) : Prop where
  key : next.key = role.key
  passed : role.httpPassed = true → next.httpPassed = true
  kicked : role.kickRequested = true → next.kickRequested = true
  retired : role.place.stage = .retired → next.place.stage = .retired

theorem Role.Ages.refl (role : Role) : role.Ages role := ⟨rfl,id,id,id⟩

theorem Role.Alike.ages (alike : role.Alike next) : role.Ages next :=
  ⟨alike.key,alike.passed,alike.kicked,alike.stage.trans⟩

/-- Every connection is still on the books. -/
def World.Ages (w later : World) : Prop :=
  ∀ (p : Nat) (role : Role), w.roles[p]? = some role → ∃ next, later.roles[p]? = some next ∧ role.Ages next

theorem World.Ages.refl (w : World) : w.Ages w := fun _ role found => ⟨role,found,Role.Ages.refl role⟩

theorem World.Ages.trans {middle later : World} (before : w.Ages middle) (after : middle.Ages later) : w.Ages later := by
  intro q role found
  obtain ⟨between,there,first⟩ := before q role found
  obtain ⟨last,found,second⟩ := after q between there
  exact ⟨last,found,second.key.trans first.key,fun passed => second.passed (first.passed passed),
    fun kicked => second.kicked (first.kicked kicked),fun retired => second.retired (first.retired retired)⟩

theorem World.ages_setRole (found : w.roles[p]? = some role) (ages : role.Ages next) (added : List Event) :
    w.Ages (w.setRole p next added) := by
  intro q holder entry
  by_cases same : q = p
  · subst q
    cases found.symm.trans entry
    exact ⟨next,w.roles_setRole found next added,ages⟩
  · exact ⟨holder,(World.setRole_other added same).trans entry,Role.Ages.refl holder⟩

/-- A step that brings no packet and no ring, and leaves the streams that still have one to
their publishers. -/
structure World.Calm (w later : World) : Prop where
  placed : later.Placed
  ages : w.Ages later
  log : ∃ added, later.log = w.log ++ added ∧ ∀ q, .put q ∉ added
  relays : later.relays = w.relays
  rings : ∀ key, w.Settled key → later.rings key = true → w.rings key = true ∧ later.publishers key = w.publishers key

theorem World.Placed.calm {later : World} (placed : later.Placed) (ages : w.Ages later) (log : later.log = w.log)
    (publishers : later.publishers = w.publishers) (rings : later.rings = w.rings) (relays : later.relays = w.relays) :
    w.Calm later where
  placed := placed
  ages := ages
  log := ⟨[],by rw [log,List.append_nil],fun _ => List.not_mem_nil⟩
  relays := relays
  rings := fun key _ present => ⟨rings ▸ present,publishers ▸ rfl⟩

theorem World.Calm.trans {middle later : World} (before : w.Calm middle) (after : middle.Calm later) : w.Calm later where
  placed := after.placed
  ages := before.ages.trans after.ages
  log := by
    obtain ⟨first,one,silent⟩ := before.log
    obtain ⟨second,two,quiet⟩ := after.log
    exact ⟨first ++ second,by rw [two,one,List.append_assoc],fun q => List.not_mem_append (silent q) (quiet q)⟩
  relays := after.relays.trans before.relays
  rings := by
    intro key settled present
    have later : middle.Settled key := (congrArg Relays.leaving (congrFun before.relays key)).trans settled
    obtain ⟨there,same⟩ := after.rings key later present
    obtain ⟨first,owner⟩ := before.rings key settled there
    exact ⟨first,same.trans owner⟩

theorem World.Placed.calm_turn (placed : w.Placed) (found : w.roles[p]? = some role) (alike : role.Alike next)
    (added : List Event) (silent : ∀ q, .put q ∉ added) : w.Calm (w.setRole p next added) :=
  ⟨placed.turn found alike added,World.ages_setRole found alike.ages added,⟨added,rfl,silent⟩,rfl,
    fun _ _ present => ⟨present,rfl⟩⟩

theorem World.Placed.calm_quiet (placed : w.Placed) (found : w.roles[p]? = some role) (alike : role.Alike next) :
    w.Calm (w.setRole p next []) := placed.calm_turn found alike [] fun _ => List.not_mem_nil

theorem World.Placed.calm_release (placed : w.Placed) (l : Nat) (listener : Listener)
    (fewer : (listener.pending ++ listener.phase.held).Subperm (w.holds l))
    (publishing : ∀ q, listener.phase ≠ .publishing q) : w.Calm (w.setListener l listener) :=
  (placed.release l listener fewer fun q phase => absurd phase (publishing q)).calm (World.Ages.refl w) rfl rfl rfl rfl

theorem World.Placed.calm_uninit (placed : w.Placed) (found : w.roles[p]? = some role) (alike : role.Alike next)
    (free : ¬ Held w.holds p) (place : Place) (retires : place.stage = .retired) : w.Calm (w.uninit p next place) := by
  have after := placed.uninit found alike free place retires
  have last := alike.trans (Role.uninit_alike next).1
  have ages : role.Ages {next.uninit with place := place} := ⟨last.key,last.passed,last.kicked,fun _ => retires⟩
  refine ⟨after,World.ages_setRole found ages [],⟨[],rfl,fun _ => List.not_mem_nil⟩,rfl,?_⟩
  intro key settled present
  have there : w.rings key = true := by
    change (if next.bound ∧ (w.publishers next.key = none ∨ w.publishers next.key = some (.publisher p)) then
      Function.update w.rings next.key false else w.rings) key = true at present
    split at present
    · by_cases same : key = next.key
      · rw [same,Function.update_self] at present
        cases present
      · rwa [Function.update_of_ne same] at present
    · exact present
  refine ⟨there,?_⟩
  have owned := (after.ring key settled present).1
  change (if next.bound then fun key => if w.publishers key = some (.publisher p) then none else w.publishers key
    else w.publishers) key ≠ none at owned
  change (if next.bound then fun key => if w.publishers key = some (.publisher p) then none else w.publishers key
    else w.publishers) key = w.publishers key
  split at owned
  · dsimp only at owned
    split at owned
    · exact absurd rfl owned
    · rename_i bound others
      rw [if_pos bound]
      exact if_neg others
  · rename_i unbound
    rw [if_neg unbound]

theorem World.uninitAll_setListener (w : World) (pending : List Nat) (l : Nat) (listener : Listener) :
    (w.uninitAll pending).setListener l listener = (w.setListener l listener).uninitAll pending := by
  induction pending generalizing w with
  | nil => rfl
  | cons q rest ih =>
    have same : (w.setListener l listener).roles[q]? = w.roles[q]? := rfl
    simp only [World.uninitAll]
    rw [same]
    cases w.roles[q]? with
    | none => exact ih w
    | some role => exact ih _

theorem World.Placed.calm_uninitAll (placed : w.Placed) (pending : List Nat) (free : ∀ q ∈ pending, ¬ Held w.holds q) :
    w.Calm (w.uninitAll pending) := by
  induction pending generalizing w with
  | nil => exact placed.calm (World.Ages.refl w) rfl rfl rfl rfl
  | cons q rest ih =>
    unfold World.uninitAll
    split
    · rename_i role found
      have first := placed.calm_uninit found (Role.Alike.refl role) (free q List.mem_cons_self) .dropped rfl
      exact first.trans (ih first.placed fun other among => free other (List.mem_cons_of_mem _ among))
    · exact ih placed fun other among => free other (List.mem_cons_of_mem _ among)

theorem World.Placed.calm_poll (placed : w.Placed) (l : Nat) (found : w.roles[p]? = some role) {held left : List Nat}
    (kept : held.Subperm (w.holds l)) (whole : (left ++ [p]).Subperm (w.holds l)) : w.Calm (w.poll l p role held left) := by
  have seen := placed.calm_turn found (role.checkHttpPassed_alike w.clock)
    ((role.checkHttpPassed w.clock).1.events p w.clock) ((role.checkHttpPassed w.clock).1.events_noPut p w.clock)
  have there := w.roles_setRole found (role.checkHttpPassed w.clock).2 ((role.checkHttpPassed w.clock).1.events p w.clock)
  have without : left.Subperm (w.holds l) := (List.sublist_append_left left [p]).subperm.trans whole
  unfold World.poll
  dsimp only
  split
  · exact seen.trans (seen.placed.calm_release l _ whole fun _ => Phase.noConfusion)
  split
  · have idle := seen.placed.calm_release l {w.listeners l with pending := left,phase := .idle}
      (by rwa [Phase.held,List.append_nil]) fun _ => Phase.noConfusion
    have distinct : (left ++ [p]).Nodup := by
      obtain ⟨list,same,within⟩ := whole
      exact same.nodup_iff.mp ((placed.exclusive.once l).sublist within)
    have gone : p ∉ left ++ [] := by
      rw [List.append_nil]
      exact fun among => (List.nodup_append.mp distinct).2.2 p among p (List.mem_singleton.mpr rfl) rfl
    have mine : p ∈ w.holds l := whole.subset (List.mem_append_right _ (List.mem_singleton.mpr rfl))
    have free := seen.placed.released {w.listeners l with pending := left,phase := .idle} mine gone
    exact (seen.trans idle).trans (idle.placed.calm_uninit there (Role.Alike.refl _) free .dropped rfl)
  · exact seen.trans (seen.placed.calm_release l _ (by rwa [Phase.held,List.append_nil]) fun _ => Phase.noConfusion)

theorem World.holds_phase {l : Nat} {phase : Phase} (current : (w.listeners l).phase = phase) :
    w.holds l = (w.listeners l).pending ++ phase.held := by
  rw [World.holds,current]

theorem World.Placed.calm_end (placed : w.Placed) (l : Nat) {phase : Phase} (current : (w.listeners l).phase = phase)
    (carried : phase.held = [p]) :
    w.Calm (w.setListener l {w.listeners l with phase := .idle}) ∧
      ¬ Held (w.setListener l {w.listeners l with phase := .idle}).holds p := by
  have holds := (World.holds_phase current).trans (congrArg ((w.listeners l).pending ++ ·) carried)
  have once := placed.exclusive.once l
  rw [holds] at once
  constructor
  · refine placed.calm_release l _ ?_ fun _ => Phase.noConfusion
    rw [holds,Phase.held,List.append_nil]
    exact (List.sublist_append_left _ _).subperm
  · refine placed.released (l := l) _ ?_ ?_
    · rw [holds]
      exact List.mem_append_right _ (List.mem_singleton.mpr rfl)
    · rw [Phase.held,List.append_nil]
      exact fun among => (List.nodup_append.mp once).2.2 p among p (List.mem_singleton.mpr rfl) rfl

theorem World.Placed.calm_evict (placed : w.Placed) (incumbent : Owner) (protectedIncumbent : Bool) :
    w.Calm (w.evict incumbent protectedIncumbent) ∧ (w.evict incumbent protectedIncumbent).listeners = w.listeners := by
  unfold World.evict
  split
  · split
    · rename_i found
      exact ⟨placed.calm_quiet found ⟨rfl,rfl,id,id,id,id,fun _ => rfl⟩,rfl⟩
    · exact ⟨placed.calm (World.Ages.refl w) rfl rfl rfl rfl,rfl⟩
  · exact ⟨placed.calm (World.Ages.refl w) rfl rfl rfl rfl,rfl⟩

theorem World.Placed.calm_finish (placed : w.Placed) (l : Nat) (found : w.roles[p]? = some role)
    (finishing : (w.listeners l).phase = .finishing p) (protectedIncumbent : Bool) :
    w.Calm (w.finish l p role protectedIncumbent) := by
  unfold World.finish
  split
  · rename_i incumbent _
    obtain ⟨evicted,same⟩ := placed.calm_evict incumbent protectedIncumbent
    have finishing : ((w.evict incumbent protectedIncumbent).listeners l).phase = .finishing p := by
      rw [same]
      exact finishing
    have ends := evicted.placed.calm_end l finishing rfl
    rw [same] at ends
    obtain ⟨idle,free⟩ := ends
    dsimp only
    split
    · rename_i found
      exact (evicted.trans idle).trans (idle.placed.calm_uninit found (Role.Alike.refl _) free .dropped rfl)
    · exact evicted.trans idle
  · have alike : role.Alike {role with bound := true} := ⟨rfl,rfl,fun _ => rfl,id,id,id,id⟩
    have bound := placed.calm_quiet found alike
    have there := w.roles_setRole found {role with bound := true} []
    have publishing : ∀ q, Phase.publishing p = .publishing q →
        ∃ holder, (w.setRole p {role with bound := true} []).roles[q]? = some holder ∧ holder.bound = true := by
      intro q same
      cases same
      exact ⟨_,there,rfl⟩
    refine bound.trans ((bound.placed.release l {w.listeners l with phase := .publishing p} ?_ publishing).calm
      (World.Ages.refl _) rfl rfl rfl rfl)
    exact (World.holds_phase finishing).symm ▸ (List.Perm.refl _).subperm

theorem World.Placed.calm_publish (placed : w.Placed) (l : Nat) (found : w.roles[p]? = some role)
    (publishing : (w.listeners l).phase = .publishing p) : w.Calm (w.publish l p role) := by
  obtain ⟨idle,free⟩ := placed.calm_end l publishing rfl
  unfold World.publish
  dsimp only
  split
  · exact idle.trans (idle.placed.calm_uninit found (Role.Alike.refl role) free .dropped rfl)
  · rename_i nobody
    obtain ⟨holder,entry,bound⟩ := placed.publishing l p publishing
    cases found.symm.trans entry
    have registered := idle.placed.register found free bound nobody [.registered p]
    obtain ⟨holder,entry,offered⟩ := placed.held p ⟨l,by
      rw [World.holds_phase publishing]
      exact List.mem_append_right _ (List.mem_singleton.mpr rfl)⟩
    cases found.symm.trans entry
    have ages : role.Ages {role with place := .list} := ⟨rfl,id,id,fun retired => by
      rw [offered] at retired
      cases retired⟩
    refine ⟨registered,World.ages_setRole found ages [.registered p],⟨[.registered p],rfl,fun q put => ?_⟩,rfl,?_⟩
    · cases List.mem_singleton.mp put
    · intro key settled present
      have apart : key ≠ role.key := fun same => (placed.ring key settled present).1 (same ▸ nobody)
      exact ⟨present,Function.update_of_ne apart _ _⟩

theorem Role.onConnect_alike {now : Nat} {threw : Bool} {added : List Event} {asked : Role}
    (connected : role.onConnect p threw now = some (asked,added)) : role.Alike asked ∧ ∀ q, .put q ∉ added := by
  unfold Role.onConnect at connected
  split at connected
  · cases connected
    exact ⟨Role.Alike.refl role,fun _ => List.not_mem_nil⟩
  split at connected
  · cases connected
  · cases connected
    exact ⟨⟨rfl,rfl,id,id,id,id,id⟩,fun q put => by cases List.mem_singleton.mp put⟩

theorem World.Placed.calm_accept (placed : w.Placed) (onEventUrl : Text) (l : Nat) (offer : Offer) (threw : Bool)
    (idle : (w.listeners l).phase = .idle) : w.Calm (w.accept onEventUrl l offer threw) := by
  have fresh : ¬ Held w.holds w.roles.length := by
    intro held
    obtain ⟨role,entry,_⟩ := placed.held _ held
    obtain ⟨bound,_⟩ := List.getElem?_eq_some_iff.mp entry
    exact Nat.lt_irrefl _ bound
  unfold World.accept
  dsimp only
  split
  · exact placed.calm (World.Ages.refl w) rfl rfl rfl rfl
  have longer : ∀ (next : Role) (added : List Event), w.Ages {w with roles := w.roles ++ [next],log := w.log ++ added} := by
    intro next added q holder entry
    obtain ⟨bound,_⟩ := List.getElem?_eq_some_iff.mp entry
    exact ⟨holder,(List.getElem?_append_left bound).trans entry,Role.Ages.refl holder⟩
  have accepted : ((Role.accepted offer.key offer.streamid offer.peerIp offer.peerPort).setHttpUrl
        (strlcpy onEventUrl urlMaxLen)).state = .inited ∧
      ((Role.accepted offer.key offer.streamid offer.peerIp offer.peerPort).setHttpUrl
        (strlcpy onEventUrl urlMaxLen)).place = .listener := by
    unfold Role.setHttpUrl
    split <;> exact ⟨rfl,rfl⟩
  generalize (Role.accepted offer.key offer.streamid offer.peerIp offer.peerPort).setHttpUrl
    (strlcpy onEventUrl urlMaxLen) = role at accepted ⊢
  obtain ⟨inited,offered⟩ := accepted
  have live : role.state ≠ .uninit := by
    rw [inited]
    exact RoleState.noConfusion
  split
  · have shut := Role.uninit_closed role live
    have after := placed.addRole {role.uninit with place := .dropped} [] (fun live => by cases live) (fun _ => shut)
      fun _ => shut
    have ages := longer {role.uninit with place := .dropped} []
    rw [List.append_nil] at after ages
    exact after.calm ages rfl rfl rfl rfl
  · rename_i asked added connected
    obtain ⟨alike,silent⟩ := Role.onConnect_alike connected
    have waits := alike.offered offered
    have unserved : ¬ asked.Live := by
      rw [Role.Live,waits]
      exact Stage.noConfusion
    have unretired : ¬ asked.place.stage = .retired := by
      rw [waits]
      exact Stage.noConfusion
    have closed := alike.closed fun gone => absurd gone live
    have after := placed.addRole asked added unserved (fun retired => absurd retired unretired) closed
    have there : (w.roles ++ [asked])[w.roles.length]? = some asked := List.getElem?_concat_length
    refine ⟨after.take (l := l) {w.listeners l with phase := .asked w.roles.length} fresh there waits ?_
      fun _ => Phase.noConfusion,longer asked added,⟨added,rfl,silent⟩,rfl,fun _ _ present => ⟨present,rfl⟩⟩
    change ((w.listeners l).pending ++ [w.roles.length]).Perm ([w.roles.length] ++ w.holds l)
    rw [World.holds_phase idle,Phase.held,List.append_nil]
    exact List.perm_append_comm

theorem World.Placed.calm_checkInvalidSock (placed : w.Placed) (found : w.roles[p]? = some role)
    (free : ¬ Held w.holds p) (broken : Bool) : w.Calm (w.checkInvalidSock p role broken) := by
  have polled : role.Alike (if role.state ≠ .invalid ∧ (role.kickRequested ∨ broken) then role.markInvalid else role) := by
    split
    · exact Role.markInvalid_alike role
    · exact Role.Alike.refl role
  unfold World.checkInvalidSock
  generalize (if role.state ≠ .invalid ∧ (role.kickRequested ∨ broken) then role.markInvalid else role) = last
    at polled ⊢
  dsimp only
  split
  · exact placed.calm_quiet found polled
  · exact placed.calm_uninit found polled free _ (by split <;> rfl)

/-- What a step may do to the rings: packets of connections come from the publisher of a
ring that is there, and a ring that stays keeps its owner outside a puller's teardown. -/
structure World.Airs (w later : World) : Prop where
  placed : later.Placed
  ages : w.Ages later
  log : ∃ added, later.log = w.log ++ added ∧ ∀ q, .put q ∈ added → ∃ role, w.roles[q]? = some role ∧
    later.publishers role.key = some (.publisher q) ∧ later.rings role.key = true
  owners : ∀ key, later.Settled key → w.rings key = true → later.rings key = true →
    w.Settled key ∧ later.publishers key = w.publishers key

theorem World.Calm.airs {later : World} (calm : w.Calm later) : w.Airs later where
  placed := calm.placed
  ages := calm.ages
  log := by
    obtain ⟨added,log,silent⟩ := calm.log
    exact ⟨added,log,fun q put => absurd put (silent q)⟩
  owners := by
    intro key settled _ present
    have settled : w.Settled key := (congrArg Relays.leaving (congrFun calm.relays key)).symm.trans settled
    exact ⟨settled,(calm.rings key settled present).2⟩

theorem World.Placed.airs_handler (placed : w.Placed) (found : w.roles[p]? = some role)
    (works : role.Live ∨ role.srt = false) (received : Received) (room marks : Bool) :
    w.Airs (w.handler p role received room marks) := by
  have reads := role.handlerReadData_reads p w.clock received (w.rings role.key) room
  unfold World.handler
  generalize role.handlerReadData p w.clock received (w.rings role.key) room = result at reads ⊢
  have owns : role.srt = true → w.publishers role.key = some (.publisher p) := by
    intro isOpen
    obtain live | shut := works
    · exact placed.live p role found live
    · exact absurd (shut.symm.trans isOpen) Bool.false_ne_true
  have last : role.Alike (if marks && !result.ok then result.role.markInvalid else result.role) := by
    have read := (role.checkHttpPassed_alike w.clock).trans reads.alike
    split
    · exact read.trans (Role.markInvalid_alike _)
    · exact read
  have owned : w.Settled role.key → result.ring = true → w.Owned role.key := by
    intro settled present
    obtain before | isOpen := reads.fills present
    · exact placed.ring role.key settled before
    · exact World.owned_publisher (owns isOpen)
  refine ⟨(placed.turn found last result.events).refill role.key result.ring fun settled present =>
      (owned settled present).congr rfl rfl,World.ages_setRole found last.ages result.events,
    ⟨result.events,rfl,fun q put => ?_⟩,fun _ settled _ _ => ⟨settled,rfl⟩⟩
  obtain ⟨rfl,present,isOpen⟩ := reads.puts q put
  refine ⟨role,found,owns isOpen,?_⟩
  change Function.update w.rings role.key result.ring role.key = true
  rwa [Function.update_self]

theorem World.role_place {place : Place} (held : w.role p place = some role) : role.place = place := by
  unfold World.role at held
  exact of_decide_eq_true (Option.filter_eq_some_iff.mp held).2

/-- Outside its teardowns a relay gives its stream's ring to nobody else. -/
theorem World.Placed.airs_setStream (placed : w.Placed) (key : Text) {owner : Option Owner} {ring : Bool} {relays : Relays}
    (strangers : ∀ q, owner = some (.publisher q) ↔ w.publishers key = some (.publisher q))
    (owned : relays.leaving = 0 → ring = true → owner ≠ none ∧ (owner = some .relay → relays.phase ≠ .rollback))
    (keeps : relays.leaving = 0 → w.rings key = true → ring = true → w.Settled key ∧ owner = w.publishers key) :
    w.Airs (w.setStream key owner ring relays) := by
  refine ⟨placed.setStream key strangers owned,World.Ages.refl w,
    ⟨[],(List.append_nil _).symm,fun _ none => absurd none List.not_mem_nil⟩,?_⟩
  intro other settled before present
  change (Function.update w.relays key relays other).leaving = 0 at settled
  change Function.update w.rings key ring other = true at present
  change w.Settled other ∧ Function.update w.publishers key owner other = w.publishers other
  by_cases same : other = key
  · subst other
    rw [Function.update_self] at settled present ⊢
    exact keeps settled before present
  · rw [Function.update_of_ne same] at settled ⊢
    exact ⟨settled,rfl⟩

theorem World.Placed.airs_relay (placed : w.Placed) {key : Text} {act : RelayAct} {later : World}
    (stepped : w.relay key act = some later) : w.Airs later := by
  simp only [World.relay] at stepped
  split at stepped
  · rename_i _ nobody
    cases stepped
    have unowned : w.Settled key → w.rings key = true → False := fun settled present =>
      (placed.ring key settled present).1 nobody
    exact placed.airs_setStream key (fun q => by simp [nobody]) (fun settled present => (unowned settled present).elim)
      fun settled present _ => (unowned settled present).elim
  · rename_i relayed _
    split at stepped <;> cases stepped
    · exact placed.airs_setStream key (fun q => by simp [relayed])
        (fun _ _ => ⟨Option.some_ne_none _,fun _ => RelayPhase.noConfusion⟩) fun settled _ _ => ⟨settled,relayed.symm⟩
    · exact placed.airs_setStream key (fun q => by simp [relayed]) (fun _ none => by cases none)
        fun _ _ none => by cases none
  · rename_i relayed refused
    cases stepped
    have unowned : w.Settled key → w.rings key = true → False := fun settled present =>
      (placed.ring key settled present).2 relayed refused
    exact placed.airs_setStream key (fun q => by simp [relayed]) (fun settled present => (unowned settled present).elim)
      fun settled present _ => (unowned settled present).elim
  · rename_i relayed _
    cases stepped
    exact placed.airs_setStream key (fun q => by simp [relayed])
      (fun _ _ => ⟨Option.some_ne_none _,fun _ => RelayPhase.noConfusion⟩) fun settled _ _ => ⟨settled,relayed.symm⟩
  · rename_i relayed _
    cases stepped
    exact placed.airs_setStream key (fun q => by simp [relayed]) (fun left => absurd left (Nat.succ_ne_zero _))
      fun left => absurd left (Nat.succ_ne_zero _)
  · split at stepped
    · cases stepped
    · cases stepped
      exact placed.airs_setStream key (fun _ => Iff.rfl) (fun _ none => by cases none) fun _ _ none => by cases none
  · cases stepped

def Label.OfListener : Label → Prop
  | .accept _ _ _ | .settle _ | .poll _ _ | .finish _ _ | .publish _ | .stopListener _ => True
  | _ => False

/-- No step of a listener brings a packet. -/
theorem World.Placed.calm_listener (placed : w.Placed) (onEventUrl : Text) {label : Label} {later : World}
    (stepped : w.step onEventUrl label = some later) (listening : label.OfListener) : w.Calm later := by
  cases label with
  | accept l offer threw =>
    simp only [World.step] at stepped
    split at stepped
    · rename_i ready
      cases stepped
      exact placed.calm_accept onEventUrl l offer threw ready.2
    · cases stepped
  | settle l =>
    simp only [World.step] at stepped
    split at stepped
    · rename_i p asked
      obtain ⟨role,found,rfl⟩ := Option.map_eq_some_iff.mp stepped
      have whole : ((w.listeners l).pending ++ [p]).Subperm (w.holds l) :=
        (World.holds_phase asked).symm ▸ (List.Perm.refl _).subperm
      exact placed.calm_poll l found whole whole
    · cases stepped
  | poll l p =>
    simp only [World.step] at stepped
    split at stepped
    · rename_i ready
      obtain ⟨role,found,rfl⟩ := Option.map_eq_some_iff.mp stepped
      have holds : w.holds l = (w.listeners l).pending := (World.holds_phase ready.2.1).trans (List.append_nil _)
      have whole : ((w.listeners l).pending.erase p ++ [p]).Perm (w.listeners l).pending :=
        List.perm_append_comm.trans (List.perm_cons_erase ready.2.2).symm
      exact placed.calm_poll l found (holds.symm ▸ (List.Perm.refl _).subperm) (holds.symm ▸ whole.subperm)
    · cases stepped
  | finish l protectedIncumbent =>
    simp only [World.step] at stepped
    split at stepped
    · rename_i p finishing
      obtain ⟨role,found,rfl⟩ := Option.map_eq_some_iff.mp stepped
      exact placed.calm_finish l found finishing protectedIncumbent
    · cases stepped
  | publish l =>
    simp only [World.step] at stepped
    split at stepped
    · rename_i p publishing
      obtain ⟨role,found,rfl⟩ := Option.map_eq_some_iff.mp stepped
      exact placed.calm_publish l found publishing
    · cases stepped
  | stopListener l =>
    simp only [World.step] at stepped
    split at stepped
    · rename_i idle
      cases stepped
      have holds : w.holds l = (w.listeners l).pending := (World.holds_phase idle).trans (List.append_nil _)
      have emptied := placed.calm_release l ⟨false,[],.idle⟩ (List.nil_subperm) fun _ => Phase.noConfusion
      rw [World.uninitAll_setListener]
      exact emptied.trans (emptied.placed.calm_uninitAll _ fun q among =>
        placed.released _ (holds.symm ▸ among) List.not_mem_nil)
    · cases stepped
  | _ => exact listening.elim

theorem World.Placed.airs_step (placed : w.Placed) (onEventUrl : Text) {label : Label} {later : World}
    (stepped : w.step onEventUrl label = some later) : w.Airs later := by
  have past : ∀ {p : Nat} {role : Role} {place : Place}, w.role p place = some role → place ≠ .listener →
      ¬ Held w.holds p := fun held other =>
    placed.free (World.role_some held) (World.role_place held ▸ other)
  cases label with
  | clock now =>
    cases stepped
    have after : World.Placed {w with clock := now} := ⟨placed.exclusive,placed.held,placed.publishing,placed.live,
      placed.retired,placed.closed,placed.owner,placed.ring⟩
    exact (World.Placed.calm (w := w) after (World.Ages.refl w) rfl rfl rfl rfl).airs
  | accept _ _ _ | settle _ | poll _ _ | finish _ _ | publish _ | stopListener _ =>
    exact (placed.calm_listener onEventUrl stepped trivial).airs
  | complete p response =>
    simp only [World.step] at stepped
    obtain ⟨role,found,answered⟩ := Option.bind_eq_some_iff.mp stepped
    split at answered
    · rename_i event _
      cases answered
      have settled : role.Alike {role with httpFuture := some ⟨event,some response⟩} := ⟨rfl,rfl,id,id,id,id,id⟩
      exact (placed.calm_turn found settled [.completed p event response] fun q put => by
        cases List.mem_singleton.mp put).airs
    · cases answered
  | requestKick p =>
    obtain ⟨role,found,rfl⟩ := Option.map_eq_some_iff.mp stepped
    have asked : role.Alike {role with kickRequested := true} := ⟨rfl,rfl,id,id,id,id,fun _ => rfl⟩
    exact (placed.calm_quiet found asked).airs
  | adopt p subscribed =>
    obtain ⟨role,held,rfl⟩ := Option.map_eq_some_iff.mp stepped
    have found := World.role_some held
    split
    · have moved : role.Alike {role with place := .worker} :=
        ⟨rfl,(congrArg Place.stage (World.role_place held)).symm,id,id,id,id,id⟩
      exact (placed.calm_quiet found moved).airs
    · exact (placed.calm_uninit found (Role.Alike.refl role) (past held Place.noConfusion) .dropped rfl).airs
  | onWorkerTick p =>
    obtain ⟨role,held,rfl⟩ := Option.map_eq_some_iff.mp stepped
    exact (placed.calm_turn (World.role_some held) (role.checkHttpPassed_alike w.clock) _
      ((role.checkHttpPassed w.clock).1.events_noPut p w.clock)).airs
  | readable p received room =>
    obtain ⟨role,held,rfl⟩ := Option.map_eq_some_iff.mp stepped
    have live : role.Live := congrArg Place.stage (World.role_place held)
    exact placed.airs_handler (World.role_some held) (.inl live) received room true
  | checkInvalidSock p broken =>
    obtain ⟨role,held,rfl⟩ := Option.map_eq_some_iff.mp stepped
    exact (placed.calm_checkInvalidSock (World.role_some held) (past held Place.noConfusion) broken).airs
  | checkWaitHttpRole p received room =>
    obtain ⟨role,held,rfl⟩ := Option.map_eq_some_iff.mp stepped
    have found := World.role_some held
    split
    · have shut := placed.retired p role found (congrArg Place.stage (World.role_place held))
      exact placed.airs_handler found (.inr shut) received room false
    · exact (placed.calm_uninit found (Role.Alike.refl role) (past held Place.noConfusion) .dropped rfl).airs
  | drop p =>
    obtain ⟨role,found,dropped⟩ := Option.bind_eq_some_iff.mp stepped
    split at dropped
    · cases dropped
    · rename_i elsewhere
      cases dropped
      exact (placed.calm_uninit found (Role.Alike.refl role) (placed.free found elsewhere) .dropped rfl).airs
  | relay key act => exact placed.airs_relay stepped

end Steps

section Broadcasts

/-- The accept path, and whose packets lie in each ring. -/
structure Broadcast where
  world : World
  writers : Text → List Owner

def Broadcast.start : Broadcast := ⟨World.start,fun _ => []⟩

def Event.writer : Event → Option Nat
  | .put p => some p
  | _ => none

/-- Who put a packet of stream `key` in these events. -/
def World.writers (w : World) (key : Text) (added : List Event) : List Nat :=
  (added.filterMap Event.writer).filter fun p => w.roles[p]?.any fun role => role.key = key

/-- The puller that reads puts its packet if it has a ring. -/
def Label.relayed (key : Text) : Label → List Owner
  | .relay other (.readData _) => if other = key then [.relay] else []
  | _ => []

def Broadcast.step (onEventUrl : Text) (b : Broadcast) (label : Label) : Option Broadcast :=
  (b.world.step onEventUrl label).map fun later =>
    ⟨later,fun key =>
      -- a ring that is gone takes its packets along
      if later.rings key then
        b.writers key ++ (b.world.writers key (later.log.drop b.world.log.length)).map .publisher ++ label.relayed key
      else []⟩

def broadcast (onEventUrl : Text) : Machine Broadcast Label := ⟨Broadcast.step onEventUrl⟩

structure Broadcast.Clean (b : Broadcast) : Prop where
  placed : b.world.Placed
  lying : ∀ key owner, owner ∈ b.writers key → b.world.rings key = true
  writers : ∀ key owner, b.world.Settled key → owner ∈ b.writers key → b.world.publishers key = some owner

theorem World.readData_owner {w later : World} {key : Text} {room : Bool} (read : w.relay key (.readData room) = some later) :
    ∃ ring relays, later = w.setStream key (some .relay) ring relays := by
  simp only [World.relay] at read
  split at read <;> try contradiction
  exact ⟨_,_,(Option.some.inj read).symm⟩

theorem Label.relayed_owner {w later : World} {onEventUrl key : Text} {label : Label} {owner : Owner}
    (reads : owner ∈ label.relayed key) (stepped : w.step onEventUrl label = some later) :
    later.publishers key = some owner := by
  cases label with
  | relay other act =>
    cases act with
    | readData room =>
      simp only [Label.relayed] at reads
      split at reads
      · rename_i same
        subst other
        rw [List.mem_singleton.mp reads]
        obtain ⟨ring,relays,rfl⟩ := World.readData_owner stepped
        exact Function.update_self _ _ _
      · cases reads
    | _ => cases reads
  | _ => cases reads

theorem broadcast_keeps (onEventUrl : Text) : (broadcast onEventUrl).Keeps (fun _ _ => True) Broadcast.Clean := by
  intro b label next clean _ taken
  obtain ⟨later,stepped,rfl⟩ := Option.map_eq_some_iff.mp taken
  have airs := clean.placed.airs_step onEventUrl stepped
  refine ⟨airs.placed,?_,?_⟩
  · intro key owner among
    dsimp only at among ⊢
    split at among
    · assumption
    · cases among
  intro key owner settled among
  dsimp only at settled among ⊢
  split at among
  · rename_i present
    obtain among | read := List.mem_append.mp among
    · obtain old | new := List.mem_append.mp among
      · obtain ⟨settled,same⟩ := airs.owners key settled (clean.lying key owner old) present
        exact same.trans (clean.writers key owner settled old)
      · obtain ⟨p,wrote,rfl⟩ := List.mem_map.mp new
        obtain ⟨added,log,puts⟩ := airs.log
        rw [log,List.drop_left] at wrote
        obtain ⟨wrote,mine⟩ := List.mem_filter.mp wrote
        obtain ⟨event,there,writer⟩ := List.mem_filterMap.mp wrote
        have put : event = .put p := by
          cases event <;> cases writer
          rfl
        obtain ⟨role,found,owns,_⟩ := puts p (put ▸ there)
        rw [found] at mine
        exact (of_decide_eq_true mine) ▸ owns
    · exact Label.relayed_owner read stepped
  · cases among

/-- In every run, with or without a webhook, a connection past its listener is the
registered publisher of its stream until its teardown. The packets in a ring all come from
the registered publisher or puller of the stream: none from another encoder, from one that
has been torn down, or from one that waits or was refused. Only a puller's teardown leaves
a ring without its owner, from its leaving the publisher map to its removing the ring. -/
theorem rings_hold_one_encoder (onEventUrl : Text) (labels : List Label) (b : Broadcast)
    (ran : (broadcast onEventUrl).run Broadcast.start labels = some b) :
    (∀ p role, b.world.roles[p]? = some role → role.Live → b.world.publishers role.key = some (.publisher p)) ∧
    (∀ key p, b.world.publishers key = some (.publisher p) →
      ∃ role, b.world.roles[p]? = some role ∧ role.key = key ∧ role.Live) ∧
    (∀ key owner, owner ∈ b.writers key → b.world.rings key = true) ∧
    ∀ key, (b.world.relays key).leaving = 0 →
      (b.world.rings key = true → b.world.publishers key ≠ none) ∧
      ∀ owner, owner ∈ b.writers key → b.world.publishers key = some owner := by
  have start : Broadcast.start.Clean :=
    ⟨World.start_placed,fun _ _ among => absurd among List.not_mem_nil,fun _ _ _ among => absurd among List.not_mem_nil⟩
  have clean := (broadcast_keeps onEventUrl).run_all start ran
  refine ⟨clean.placed.live,fun key p owns => ?_,clean.lying,fun key settled => ?_⟩
  · obtain ⟨role,found,mine,live,_⟩ := clean.placed.owner key p owns
    exact ⟨role,found,mine,live⟩
  · exact ⟨fun present => (clean.placed.ring key settled present).1,
      fun owner among => clean.writers key owner settled among⟩

/-- A puller's stream is torn down, an encoder takes its place, and is evicted by the first
attempt of another, whose second attempt succeeds. -/
def encoderTakeover : List Label :=
  let offer : Offer := ⟨ascii "live/s",ascii "publish/live/s",ascii "10.0.0.1",5000⟩
  [.clock 1000,.relay (ascii "live/s") .setRelayParam,.relay (ascii "live/s") (.addAtConnect true),
    .relay (ascii "live/s") (.readData true),.relay (ascii "live/s") .leaveMap,.relay (ascii "live/s") .removeRing,
    .accept 0 offer false,.settle 0,.finish 0 false,.publish 0,.adopt 0 true,.readable 0 .packet true,
    .accept 1 offer false,.settle 1,.finish 1 false,.checkInvalidSock 0 false,
    .accept 1 offer false,.settle 1,.finish 1 false,.publish 1,.adopt 2 true,.readable 2 .packet true]

theorem rings_hold_one_encoder_takeover : ∃ b, (broadcast []).run Broadcast.start encoderTakeover = some b ∧
    b.writers (ascii "live/s") = [.publisher 2] ∧ b.world.publishers (ascii "live/s") = some (.publisher 2) := by
  have aired : ((broadcast []).run Broadcast.start encoderTakeover).map (fun b =>
      (b.writers (ascii "live/s"),(b.world.relays (ascii "live/s")).leaving)) = some ([.publisher 2],0) := by
    decide +kernel
  obtain ⟨b,ran,facts⟩ := Option.map_eq_some_iff.mp aired
  obtain ⟨writers,settled⟩ := Prod.mk.inj facts
  have wrote : .publisher 2 ∈ b.writers (ascii "live/s") := by
    rw [writers]
    exact List.mem_singleton.mpr rfl
  exact ⟨b,ran,writers,((rings_hold_one_encoder [] encoderTakeover b ran).2.2.2 _ settled).2 _ wrote⟩

end Broadcasts

end SrtLiveServer.PublisherAuth
