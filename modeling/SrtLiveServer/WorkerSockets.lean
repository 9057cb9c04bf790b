import SrtLiveServer.WorkerGroup

/-! The sockets of handed-over roles under the calls of their workers: the epoll containers
and the record of closed sockets follow the roles. -/
namespace SrtLiveServer.WorkerGroup
open PublisherAuth (RoleState)
open CloseNotification (Call Op)

section Sockets

/-- What the workers leave as it is in a role: a socket once gone stays gone, a kick stays
requested, and a container that was noted stays noted. -/
structure Role.Follows (role next : Role) : Prop where
  fd : next.fd = role.fd
  eid : next.eid = role.eid ∨ role.eid = 0 ∧ next.srt = none
  closes : role.srt = none → next.srt = none
  kick : role.kickRequested = true → next.kickRequested = true

theorem Role.Follows.refl (role : Role) : role.Follows role := ⟨rfl,.inl rfl,id,id⟩

theorem Role.Follows.trans {role middle next : Role} (first : role.Follows middle) (second : middle.Follows next) :
    role.Follows next where
  fd := second.fd.trans first.fd
  eid := by
    obtain same | ⟨zero,closed⟩ := second.eid
    · obtain same' | ⟨zero,closed⟩ := first.eid
      · exact .inl (same.trans same')
      · exact .inr ⟨zero,second.closes closed⟩
    · obtain same' | ⟨zero',_⟩ := first.eid
      · exact .inr ⟨same'.symm.trans zero,closed⟩
      · exact .inr ⟨zero',closed⟩
  closes := fun closed => second.closes (first.closes closed)
  kick := fun kicked => second.kick (first.kick kicked)

theorem Role.call_closes {role : Role} (closed : role.srt = none) (call : Call) : (role.call call).srt = none := by
  obtain ⟨same,_⟩ | closed' := CloseNotification.Role.step_socket role.inited call
  · exact same.trans closed
  · exact closed'

theorem onClose_kick (role : CloseNotification.Role) (threw : Bool) : (role.onClose threw).1.kickRequested = role.kickRequested := by
  unfold CloseNotification.Role.onClose
  split
  · rfl
  · dsimp only
    split
    · rfl
    · rfl

theorem invalidSrt_kick (role : CloseNotification.Role) (threw : Bool) :
    (role.invalidSrt threw).1.kickRequested = role.kickRequested := by
  unfold CloseNotification.Role.invalidSrt
  split
  · rfl
  · exact onClose_kick _ threw

theorem step_kick {role : CloseNotification.Role} (kicked : role.kickRequested = true) (call : Call) :
    (role.step call).1.kickRequested = true := by
  obtain ⟨op,threw⟩ := call
  cases op with
  | onConnect now =>
    show (role.onConnect threw now).1.kickRequested = true
    unfold CloseNotification.Role.onConnect
    split
    · exact kicked
    · dsimp only
      split
      · exact kicked
      · exact kicked
  | complete response =>
    show (role.complete response).kickRequested = true
    unfold CloseNotification.Role.complete
    split
    · exact kicked
    · exact kicked
  | checkHttpPassed now =>
    show (role.checkHttpPassed threw now).1.kickRequested = true
    unfold CloseNotification.Role.checkHttpPassed
    split
    · exact kicked
    split
    · exact (invalidSrt_kick _ threw).trans kicked
    split
    · exact (invalidSrt_kick _ threw).trans kicked
    · exact kicked
    · dsimp only
      split
      · exact (invalidSrt_kick _ threw).trans kicked
      · exact kicked
  | markInvalid => exact (invalidSrt_kick _ threw).trans kicked
  | invalidSrt => exact (invalidSrt_kick _ threw).trans kicked
  | requestKick => rfl
  | getState idle broken =>
    show (role.getState threw idle broken).1.kickRequested = true
    obtain ⟨kept,_⟩ | marked := role.getState_cases threw idle broken
    · rw [kept]
      exact kicked
    · rw [marked]
      exact (invalidSrt_kick _ threw).trans kicked
  | uninit =>
    show (role.uninit threw).1.kickRequested = true
    unfold CloseNotification.Role.uninit
    dsimp only
    split
    · exact kicked
    · exact (invalidSrt_kick _ threw).trans kicked

theorem Role.call_follows (role : Role) (call : Call) : role.Follows (role.call call) where
  fd := rfl
  eid := .inl rfl
  closes := fun closed => Role.call_closes closed call
  kick := fun kicked => step_kick kicked call

/-- `uninit` of a role that is not in use leaves it without socket and without a request. -/
theorem uninit_ended {role : CloseNotification.Role} (closed : role.srt = none) (threw : Bool) :
    (role.uninit threw).1.httpFuture = none := by
  unfold CloseNotification.Role.uninit CloseNotification.Role.invalidSrt
  dsimp only
  split
  · rfl
  · rw [closed]

/-- A subscription that a role in use has in its container. -/
def Net.Watches (net : Net) (sub : Subscription) : Prop :=
  ∃ id role, net.roles id = some role ∧ role.srt ≠ none ∧ role.eid ≠ 0 ∧ sub = role.subscription

/-- The role has a socket, or had one when it was adopted. -/
def Role.Numbered (role : Role) : Prop := role.srt ≠ none ∨ role.eid ≠ 0

/-- The records of libsrt agree with the roles, and every socket was closed once at most. -/
structure Net.Sound (net : Net) : Prop where
  apart : ∀ {id other role role'}, net.roles id = some role → net.roles other = some role' →
    role.Numbered → role'.Numbered → role.fd = role'.fd → id = other
  nonzero : ∀ {id role}, net.roles id = some role → role.srt ≠ none → role.fd ≠ 0
  subscribed : ∀ sub, sub ∈ net.subscribed ↔ net.Watches sub
  opened : net.opened.Nodup
  closed : net.closed.Nodup
  recorded : ∀ {id role}, net.roles id = some role → role.Numbered → role.fd ∈ net.opened
  unclosed : ∀ {id role}, net.roles id = some role → role.srt ≠ none → role.fd ∉ net.closed
  known : ∀ fd ∈ net.closed, fd ∈ net.opened
  accounted : ∀ fd ∈ net.opened, fd ∈ net.closed ∨ ∃ id role, net.roles id = some role ∧ role.fd = fd ∧ role.srt ≠ none

/-- What calls on roles do to all of them. -/
structure Net.Evolves (net next : Net) : Prop where
  forward : ∀ {id role}, net.roles id = some role → ∃ role', next.roles id = some role' ∧ role.Follows role'
  fresh : ∀ {id}, net.roles id = none → next.roles id = none

theorem Net.Evolves.refl (net : Net) : net.Evolves net := ⟨fun known => ⟨_,known,.refl _⟩,id⟩

theorem Net.Evolves.trans {net middle next : Net} (first : net.Evolves middle) (second : middle.Evolves next) :
    net.Evolves next where
  forward := by
    intro id role known
    obtain ⟨role',known',follows⟩ := first.forward known
    obtain ⟨role'',known'',follows'⟩ := second.forward known'
    exact ⟨role'',known'',follows.trans follows'⟩
  fresh := fun unknown => second.fresh (first.fresh unknown)

theorem Net.Evolves.back {net next : Net} (evolves : net.Evolves next) {id : Nat} {role' : Role}
    (known : next.roles id = some role') : ∃ role, net.roles id = some role ∧ role.Follows role' := by
  cases before : net.roles id with
  | none =>
    rw [evolves.fresh before] at known
    cases known
  | some role =>
    obtain ⟨found,same,follows⟩ := evolves.forward before
    cases known.symm.trans same
    exact ⟨role,rfl,follows⟩

theorem Net.Evolves.unknown {net next : Net} (evolves : net.Evolves next) {id : Nat} (unknown : next.roles id = none) :
    net.roles id = none := by
  cases before : net.roles id with
  | none => rfl
  | some role =>
    obtain ⟨_,found,_⟩ := evolves.forward before
    rw [unknown] at found
    cases found

variable {net : Net} {id : Nat} {role : Role}

@[simp] theorem Net.set_self (net : Net) (id : Nat) (role : Role) : (net.set id role).roles id = some role :=
  Function.update_self ..

@[simp] theorem Net.set_other (net : Net) {id other : Nat} (role : Role) (away : other ≠ id) :
    (net.set id role).roles other = net.roles other := Function.update_of_ne away _ _

theorem Net.call_unknown (unknown : net.roles id = none) (call : Call) : net.call id call = net := by
  unfold Net.call
  rw [unknown]

theorem Net.call_roles (known : net.roles id = some role) (call : Call) :
    (net.call id call).roles = Function.update net.roles id (some (role.call call)) := by
  unfold Net.call
  rw [known]
  dsimp only
  split
  · rfl
  · rfl

theorem Net.call_self (known : net.roles id = some role) (call : Call) :
    (net.call id call).roles id = some (role.call call) := by
  rw [Net.call_roles known,Function.update_self]

theorem Net.evolves_update (known : net.roles id = some role) {next : Net} {role' : Role} (follows : role.Follows role')
    (updated : next.roles = Function.update net.roles id (some role')) : net.Evolves next where
  forward := by
    intro other before found
    rw [updated]
    by_cases same : other = id
    · subst same
      cases known.symm.trans found
      exact ⟨role',Function.update_self ..,follows⟩
    · exact ⟨before,(Function.update_of_ne same _ _).trans found,.refl before⟩
  fresh := by
    intro other unknown
    rw [updated]
    by_cases same : other = id
    · subst same
      rw [known] at unknown
      cases unknown
    · exact (Function.update_of_ne same _ _).trans unknown

theorem Net.call_evolves (net : Net) (id : Nat) (call : Call) : net.Evolves (net.call id call) := by
  cases known : net.roles id with
  | none =>
    rw [Net.call_unknown known]
    exact .refl net
  | some role => exact Net.evolves_update known (role.call_follows call) (Net.call_roles known call)

theorem Net.Sound.own (sound : net.Sound) (known : net.roles id = some role) (isOpen : role.srt ≠ none) {sub : Subscription}
    (among : sub ∈ net.subscribed) (same : sub.fd = role.fd) : role.eid ≠ 0 ∧ sub = role.subscription := by
  obtain ⟨other,role',found,open',registered,rfl⟩ := (sound.subscribed sub).mp among
  cases sound.apart found known (.inl open') (.inl isOpen) same
  cases known.symm.trans found
  exact ⟨registered,rfl⟩

/-- Role `id` was `role` and is `role'`: it may have lost its socket, and the records follow it. -/
structure Net.Replaces (net next : Net) (id : Nat) (role role' : Role) : Prop where
  known : net.roles id = some role
  fd : role'.fd = role.fd
  closes : role.srt = none → role'.srt = none
  numbered : role'.Numbered → role.Numbered
  roles : next.roles = Function.update net.roles id (some role')
  opened : next.opened = net.opened
  closed : next.closed = if role.srt.isSome && role'.srt.isNone then net.closed ++ [role.fd] else net.closed
  subscribed : ∀ sub, sub ∈ next.subscribed ↔ (sub ∈ net.subscribed ∧ (role.srt ≠ none → sub.fd ≠ role.fd)) ∨
    (role'.srt ≠ none ∧ role'.eid ≠ 0 ∧ sub = role'.subscription)

section Replacement

variable {next : Net} {role' : Role} (replaces : net.Replaces next id role role')
include replaces

theorem Net.Replaces.self : next.roles id = some role' := by rw [replaces.roles,Function.update_self]

theorem Net.Replaces.others {other : Nat} {before : Role} (away : other ≠ id) (found : net.roles other = some before) :
    next.roles other = some before := by
  rw [replaces.roles,Function.update_of_ne away]
  exact found

theorem Net.Replaces.origin {other : Nat} {after : Role} (found : next.roles other = some after) :
    ∃ before, net.roles other = some before ∧ (after.srt ≠ none → before.srt ≠ none) ∧
      (after.Numbered → before.Numbered) ∧ before.fd = after.fd ∧ (other ≠ id → before = after) := by
  rw [replaces.roles] at found
  by_cases same : other = id
  · subst same
    rw [Function.update_self] at found
    cases found
    exact ⟨role,replaces.known,fun isOpen closed => isOpen (replaces.closes closed),replaces.numbered,replaces.fd.symm,
      fun away => absurd rfl away⟩
  · rw [Function.update_of_ne same] at found
    exact ⟨after,found,fun isOpen => isOpen,fun isNumbered => isNumbered,rfl,fun _ => rfl⟩

theorem Net.Replaces.closed_cases {fd : Nat} (among : fd ∈ next.closed) :
    fd ∈ net.closed ∨ fd = role.fd ∧ role.srt ≠ none ∧ role'.srt = none := by
  rw [replaces.closed] at among
  split at among
  · rename_i closing
    obtain ⟨isOpen,gone⟩ := Bool.and_eq_true_iff.mp closing
    exact (List.mem_append.mp among).imp_right fun new =>
      ⟨List.mem_singleton.mp new,Option.isSome_iff_ne_none.mp isOpen,Option.isNone_iff_eq_none.mp gone⟩
  · exact .inl among

theorem Net.Replaces.closed_grown {fd : Nat} (among : fd ∈ net.closed) : fd ∈ next.closed := by
  rw [replaces.closed]
  split
  · exact List.mem_append_left _ among
  · exact among

theorem Net.Sound.replaced_watches (sound : net.Sound) (sub : Subscription) :
    sub ∈ next.subscribed ↔ next.Watches sub := by
  rw [replaces.subscribed]
  constructor
  · rintro (⟨among,apart⟩ | ⟨isOpen,registered,rfl⟩)
    · obtain ⟨other,before,found,isOpen,registered,rfl⟩ := (sound.subscribed sub).mp among
      have away : other ≠ id := by
        rintro rfl
        cases replaces.known.symm.trans found
        exact apart isOpen rfl
      exact ⟨other,before,replaces.others away found,isOpen,registered,rfl⟩
    · exact ⟨id,role',replaces.self,isOpen,registered,rfl⟩
  · rintro ⟨other,after,found,isOpen,registered,rfl⟩
    by_cases same : other = id
    · subst same
      cases replaces.self.symm.trans found
      exact .inr ⟨isOpen,registered,rfl⟩
    · obtain ⟨before,was,_,_,_,kept⟩ := replaces.origin found
      cases kept same
      refine .inl ⟨(sound.subscribed _).mpr ⟨other,after,was,isOpen,registered,rfl⟩,fun open' shared => ?_⟩
      exact same (sound.apart was replaces.known (.inl isOpen) (.inl open') shared)

theorem Net.Sound.replaced_closed (sound : net.Sound) : next.closed.Nodup := by
  rw [replaces.closed]
  split
  · rename_i closing
    have isOpen : role.srt ≠ none := Option.isSome_iff_ne_none.mp (Bool.and_eq_true_iff.mp closing).1
    exact List.nodup_append.mpr ⟨sound.closed,List.pairwise_singleton ..,fun fd among _ new => by
      rintro rfl
      cases List.mem_singleton.mp new
      exact sound.unclosed replaces.known isOpen among⟩
  · exact sound.closed

theorem Net.Sound.replaced_accounted (sound : net.Sound) {fd : Nat} (among : fd ∈ net.opened) :
    fd ∈ next.closed ∨ ∃ id role, next.roles id = some role ∧ role.fd = fd ∧ role.srt ≠ none := by
  obtain ended | ⟨other,before,found,rfl,isOpen⟩ := sound.accounted fd among
  · exact .inl (replaces.closed_grown ended)
  · by_cases same : other = id
    · subst same
      cases replaces.known.symm.trans found
      cases gone : role'.srt with
      | none =>
        left
        rw [replaces.closed,gone,Option.isSome_iff_ne_none.mpr isOpen]
        exact List.mem_append_right _ (List.mem_singleton_self _)
      | some socket => exact .inr ⟨_,role',replaces.self,replaces.fd,by rw [gone]; exact Option.some_ne_none socket⟩
    · exact .inr ⟨other,before,replaces.others same found,rfl,isOpen⟩

theorem Net.Sound.replace (sound : net.Sound) : next.Sound := by
  refine ⟨?apart,?nonzero,sound.replaced_watches replaces,?opened,sound.replaced_closed replaces,?recorded,?unclosed,
    ?known,?accounted⟩
  case apart =>
    intro one other after after' found found' isNumbered numbered' same
    obtain ⟨before,was,_,before_,fd,_⟩ := replaces.origin found
    obtain ⟨before',was',_,before'_,fd',_⟩ := replaces.origin found'
    exact sound.apart was was' (before_ isNumbered) (before'_ numbered') (fd.trans (same.trans fd'.symm))
  case nonzero =>
    intro other after found isOpen
    obtain ⟨before,was,wasOpen,_,fd,_⟩ := replaces.origin found
    rw [← fd]
    exact sound.nonzero was (wasOpen isOpen)
  case opened =>
    rw [replaces.opened]
    exact sound.opened
  case recorded =>
    intro other after found isNumbered
    obtain ⟨before,was,_,before_,same,_⟩ := replaces.origin found
    rw [← same,replaces.opened]
    exact sound.recorded was (before_ isNumbered)
  case unclosed =>
    intro other after found isOpen closed
    obtain ⟨before,was,wasOpen,_,same,_⟩ := replaces.origin found
    rw [← same] at closed
    obtain closed | ⟨number,open',gone⟩ := replaces.closed_cases closed
    · exact sound.unclosed was (wasOpen isOpen) closed
    · -- the role that closes has no socket any more
      have shared := sound.apart was replaces.known (.inl (wasOpen isOpen)) (.inl open') number
      subst shared
      cases replaces.self.symm.trans found
      exact isOpen gone
  case known =>
    intro fd among
    rw [replaces.opened]
    obtain among | ⟨rfl,isOpen,_⟩ := replaces.closed_cases among
    · exact sound.known fd among
    · exact sound.recorded replaces.known (.inl isOpen)
  case accounted =>
    intro fd among
    rw [replaces.opened] at among
    exact sound.replaced_accounted replaces among

end Replacement

theorem Net.Sound.call (sound : net.Sound) (id : Nat) (call : Call) : (net.call id call).Sound := by
  cases known : net.roles id with
  | none =>
    rw [Net.call_unknown known]
    exact sound
  | some role =>
    have fd : (role.call call).fd = role.fd := rfl
    have numbered : (role.call call).Numbered → role.Numbered := fun isNumbered =>
      isNumbered.imp (fun isOpen closed => isOpen (Role.call_closes closed call)) fun registered => registered
    refine sound.replace ⟨known,fd,fun closed => Role.call_closes closed call,numbered,Net.call_roles known call,?_,?_,?_⟩
    · unfold Net.call
      rw [known]
      dsimp only
      split
      · rfl
      · rfl
    · unfold Net.call
      rw [known]
      dsimp only
      split
      · rfl
      · rfl
    · intro sub
      unfold Net.call
      rw [known]
      dsimp only
      split
      · rename_i closing
        obtain ⟨open_,gone⟩ := Bool.and_eq_true_iff.mp closing
        have isOpen : role.srt ≠ none := Option.isSome_iff_ne_none.mp open_
        have gone : (role.call call).srt = none := Option.isNone_iff_eq_none.mp gone
        have dropped : sub ∈ (net.drop role).subscribed ↔ sub ∈ net.subscribed ∧ sub.fd ≠ role.fd := by
          unfold Net.drop
          dsimp only
          split
          · rename_i unregistered
            exact ⟨fun among => ⟨among,fun same => (sound.own known isOpen among same).1 unregistered⟩,And.left⟩
          · simp only [List.mem_filter,Bool.not_eq_true',Bool.and_eq_false_iff,decide_eq_false_iff_not]
            refine ⟨fun ⟨among,away⟩ => ⟨among,fun same => ?_⟩,fun ⟨among,away⟩ => ⟨among,.inr away⟩⟩
            obtain ⟨_,rfl⟩ := sound.own known isOpen among same
            exact away.elim (fun away => away rfl) fun away => away rfl
        rw [show ((net.drop role).set id (role.call call)).subscribed = (net.drop role).subscribed from rfl,dropped,gone]
        simp [isOpen]
      · rename_i staying
        show sub ∈ net.subscribed ↔ _
        cases open_ : role.srt with
        | none => simp [Role.call_closes open_ call]
        | some socket =>
          have isOpen : role.srt ≠ none := by rw [open_]; exact Option.some_ne_none socket
          have stays : (role.call call).srt ≠ none := by
            intro gone
            exact staying (by rw [open_,gone]; rfl)
          constructor
          · intro among
            by_cases same : sub.fd = role.fd
            · obtain ⟨registered,rfl⟩ := sound.own known isOpen among same
              exact .inr ⟨stays,registered,rfl⟩
            · exact .inl ⟨among,fun _ => same⟩
          · rintro (⟨among,_⟩ | ⟨_,registered,rfl⟩)
            · exact among
            · exact (sound.subscribed _).mpr ⟨id,role,known,isOpen,registered,rfl⟩

theorem Net.Sound.calls (sound : net.Sound) (id : Nat) (calls : List Call) : (net.calls id calls).Sound := by
  unfold Net.calls
  induction calls generalizing net with
  | nil => exact sound
  | cons call rest ih => exact ih (sound.call id call)

theorem Net.calls_evolves (net : Net) (id : Nat) (calls : List Call) : net.Evolves (net.calls id calls) := by
  unfold Net.calls
  induction calls generalizing net with
  | nil => exact .refl net
  | cons call rest ih => exact (net.call_evolves id call).trans (ih _)

theorem Net.Sound.uninitAll (sound : net.Sound) (threw : Bool) (ids : List Nat) : (net.uninitAll threw ids).Sound := by
  unfold Net.uninitAll
  induction ids generalizing net with
  | nil => exact sound
  | cons id rest ih => exact ih (sound.call id ⟨.uninit,threw⟩)

theorem Net.uninitAll_evolves (net : Net) (threw : Bool) (ids : List Nat) : net.Evolves (net.uninitAll threw ids) := by
  unfold Net.uninitAll
  induction ids generalizing net with
  | nil => exact .refl net
  | cons id rest ih => exact (net.call_evolves id ⟨.uninit,threw⟩).trans (ih _)

/-- The role has no socket. -/
def Net.Gone (net : Net) (id : Nat) : Prop := ∀ role, net.roles id = some role → role.srt = none

theorem Net.Gone.evolves (gone : net.Gone id) {next : Net} (evolves : net.Evolves next) : next.Gone id := by
  intro role' found
  obtain ⟨role,before,follows⟩ := evolves.back found
  exact follows.closes (gone role before)

theorem Net.uninit_gone (net : Net) (threw : Bool) (id : Nat) : (net.uninit threw id).Gone id := by
  intro role' found
  cases known : net.roles id with
  | none =>
    rw [Net.uninit,Net.call_unknown known,known] at found
    cases found
  | some role =>
    rw [Net.uninit,Net.call_self known] at found
    cases found
    exact CloseNotification.Role.uninit_closes threw role.inited

theorem Net.uninitAll_gone (net : Net) (threw : Bool) {ids : List Nat} (among : id ∈ ids) : (net.uninitAll threw ids).Gone id := by
  unfold Net.uninitAll
  induction ids generalizing net with
  | nil => cases among
  | cons first rest ih =>
    by_cases later : id ∈ rest
    · exact ih _ later
    · obtain rfl | later' := List.mem_cons.mp among
      · exact (net.uninit_gone threw id).evolves (Net.uninitAll_evolves _ threw rest)
      · exact absurd later' later

theorem Net.Sound.handle (sound : net.Sound) (id : Nat) (handling : Handling) (threw : Bool) :
    (net.handle id handling threw).Sound := by
  unfold Net.handle
  dsimp only
  split
  · exact sound.calls id handling.calls
  · exact (sound.calls id handling.calls).call id _

theorem Net.handle_evolves (net : Net) (id : Nat) (handling : Handling) (threw : Bool) :
    net.Evolves (net.handle id handling threw) := by
  unfold Net.handle
  dsimp only
  split
  · exact net.calls_evolves id handling.calls
  · exact (net.calls_evolves id handling.calls).trans (Net.call_evolves _ id _)

theorem Net.Sound.updateEgressArming (sound : net.Sound) (id : Nat) (handling : Handling) :
    (net.updateEgressArming id handling).Sound ∧ net.Evolves (net.updateEgressArming id handling) := by
  unfold Net.updateEgressArming
  split
  · exact ⟨sound,.refl net⟩
  rename_i role known
  split
  · exact ⟨sound,.refl net⟩
  rename_i arms
  split
  · exact ⟨sound,.refl net⟩
  rename_i registered
  have isOpen : role.srt ≠ none := by
    intro closed
    rw [closed] at arms
    simp at arms
  let armed : Role := {role with epollOutArmed := handling.staged,unarmed := fun zero => absurd zero registered}
  have fd : armed.fd = role.fd := rfl
  have stays : armed.srt = role.srt := rfl
  constructor
  · refine sound.replace ⟨known,fd,fun closed => closed,fun _ => .inl isOpen,rfl,rfl,?_,fun sub => ?_⟩
    · rw [stays]
      cases role.srt <;> rfl
    · -- the entry of this socket is rewritten in its place
      have own : role.subscription ∈ net.subscribed := (sound.subscribed _).mpr ⟨id,role,known,isOpen,registered,rfl⟩
      simp only [List.mem_map]
      constructor
      · rintro ⟨before,among,rfl⟩
        by_cases same : before.fd = role.fd
        · obtain ⟨_,rfl⟩ := sound.own known isOpen among same
          exact .inr ⟨isOpen,registered,by simp [Role.subscription,armed]⟩
        · simp only [same,decide_false,Bool.and_false]
          exact .inl ⟨among,fun _ => same⟩
      · rintro (⟨among,away⟩ | ⟨_,_,rfl⟩)
        · exact ⟨sub,among,by simp [away isOpen]⟩
        · exact ⟨role.subscription,own,by simp [Role.subscription,armed]⟩
  · have follows : role.Follows armed := ⟨rfl,.inl rfl,fun closed => closed,fun kicked => kicked⟩
    exact Net.evolves_update known follows rfl

theorem Net.Sound.egress (sound : net.Sound) (id : Nat) (answers : Answers) :
    (net.egress id answers).Sound ∧ net.Evolves (net.egress id answers) := by
  have ticked := sound.calls id answers.tick
  have ticks := net.calls_evolves id answers.tick
  unfold Net.egress
  dsimp only
  split
  · exact ⟨ticked,ticks⟩
  split
  · exact ⟨ticked,ticks⟩
  split
  · obtain ⟨armed,arms⟩ := (ticked.calls id answers.handling.calls).updateEgressArming id answers.handling
    exact ⟨armed,ticks.trans ((Net.calls_evolves _ id answers.handling.calls).trans arms)⟩
  · exact ⟨(ticked.calls id answers.handling.calls).call id _,
      ticks.trans ((Net.calls_evolves _ id answers.handling.calls).trans (Net.call_evolves _ id _))⟩

/-- A role in no container yet is watched from now on, for reading unless it only writes. -/
theorem Net.Sound.register (sound : net.Sound) (known : net.roles id = some role) (isOpen : role.srt ≠ none)
    (unregistered : role.eid = 0) {eid : Nat} (container : eid ≠ 0) : (net.addToEpoll id eid true).Sound := by
  have unwatched : ∀ sub ∈ net.subscribed, sub.fd ≠ role.fd :=
    fun sub among same => (sound.own known isOpen among same).1 unregistered
  unfold Net.addToEpoll
  rw [known]
  dsimp only
  rw [dif_neg container,if_pos rfl]
  let noted : Role := {role with eid := eid,unarmed := fun zero => absurd zero container}
  have fd : noted.fd = role.fd := rfl
  have stays : noted.srt = role.srt := rfl
  refine sound.replace ⟨known,fd,fun closed => closed,fun _ => .inl isOpen,rfl,rfl,?_,fun sub => ?_⟩
  · rw [stays]
    cases role.srt <;> rfl
  · have added : noted.subscription = ⟨eid,role.fd,!role.isWrite,false⟩ := by
      show (⟨eid,role.fd,!role.isWrite,role.epollOutArmed⟩ : Subscription) = _
      rw [role.unarmed unregistered]
    rw [added,List.mem_append,List.mem_singleton]
    constructor
    · rintro (among | rfl)
      · exact .inl ⟨among,fun _ => unwatched sub among⟩
      · exact .inr ⟨isOpen,container,rfl⟩
    · rintro (⟨among,_⟩ | ⟨_,_,rfl⟩)
      · exact .inl among
      · exact .inr rfl

theorem Net.refused (known : net.roles id = some role) (unregistered : role.eid = 0) {eid : Nat} (container : eid ≠ 0)
    (threw : Bool) : ∃ torn : Role, torn.srt = none ∧ role.Follows torn ∧
      ((net.addToEpoll id eid false).uninit threw id).roles = Function.update net.roles id (some torn) ∧
      (role.srt ≠ none → ((net.addToEpoll id eid false).uninit threw id).opened = net.opened ∧
        ((net.addToEpoll id eid false).uninit threw id).closed = net.closed ++ [role.fd] ∧
        ((net.addToEpoll id eid false).uninit threw id).subscribed =
          net.subscribed.filter fun sub => !(sub.eid = eid && sub.fd = role.fd)) := by
  let noted : Role := {role with eid := eid,unarmed := fun zero => absurd zero container}
  let torn := noted.call ⟨.uninit,threw⟩
  have gone : torn.srt = none := CloseNotification.Role.uninit_closes threw role.inited
  have added : net.addToEpoll id eid false = net.set id noted := by
    unfold Net.addToEpoll
    rw [known]
    dsimp only
    rw [dif_neg container,if_neg Bool.false_ne_true]
  have follows : role.Follows torn := ⟨rfl,.inr ⟨unregistered,gone⟩,fun _ => gone,fun kicked => step_kick kicked _⟩
  rw [added]
  refine ⟨torn,gone,follows,?_,fun isOpen => ?_⟩
  · rw [Net.uninit,Net.call_roles (Net.set_self net id noted)]
    exact Function.update_idem ..
  · have closing : (net.set id noted).uninit threw id = ((net.set id noted).drop noted).set id torn := by
      unfold Net.uninit Net.call
      rw [Net.set_self]
      dsimp only
      rw [if_pos]
      rw [show noted.srt = role.srt from rfl,Option.isSome_iff_ne_none.mpr isOpen,gone]
      rfl
    rw [closing]
    refine ⟨rfl,rfl,?_⟩
    show (if eid = 0 then net.subscribed else _) = _
    rw [if_neg container]
    rfl

theorem Net.Sound.refuse (sound : net.Sound) (known : net.roles id = some role) (isOpen : role.srt ≠ none)
    (unregistered : role.eid = 0) {eid : Nat} (container : eid ≠ 0) (threw : Bool) :
    ((net.addToEpoll id eid false).uninit threw id).Sound := by
  have unwatched : ∀ sub ∈ net.subscribed, sub.fd ≠ role.fd :=
    fun sub among same => (sound.own known isOpen among same).1 unregistered
  obtain ⟨torn,gone,follows,roles,records⟩ := Net.refused known unregistered container threw
  obtain ⟨opened,closed,subscribed⟩ := records isOpen
  refine sound.replace ⟨known,follows.fd,fun _ => gone,fun _ => .inl isOpen,roles,opened,?_,fun sub => ?_⟩
  · rw [closed,gone,Option.isSome_iff_ne_none.mpr isOpen]
    rfl
  · rw [subscribed,gone,List.mem_filter]
    constructor
    · rintro ⟨among,_⟩
      exact .inl ⟨among,fun _ => unwatched sub among⟩
    · rintro (⟨among,away⟩ | ⟨isOpen,_⟩)
      · exact ⟨among,by simp [away isOpen]⟩
      · exact absurd rfl isOpen

theorem Net.refuse_evolves (known : net.roles id = some role) (unregistered : role.eid = 0) {eid : Nat} (container : eid ≠ 0)
    (threw : Bool) : net.Evolves ((net.addToEpoll id eid false).uninit threw id) := by
  obtain ⟨torn,_,follows,roles,_⟩ := Net.refused known unregistered container threw
  exact Net.evolves_update known follows roles

theorem Net.register_roles (known : net.roles id = some role) {eid : Nat} (container : eid ≠ 0) :
    ∃ noted : Role, (net.addToEpoll id eid true).roles = Function.update net.roles id (some noted) ∧
      noted.fd = role.fd ∧ noted.eid = eid ∧ noted.srt = role.srt ∧ noted.kickRequested = role.kickRequested := by
  unfold Net.addToEpoll
  rw [known]
  dsimp only
  rw [dif_neg container]
  exact ⟨_,rfl,rfl,rfl,rfl,rfl⟩

theorem Net.Sound.handoff (sound : net.Sound) (unknown : net.roles id = none) (unregistered : role.eid = 0)
    (fresh : role.srt.isSome = true → role.fd ≠ 0 ∧ role.fd ∉ net.opened) :
    Net.Sound {net.set id role with opened := if role.srt.isSome then net.opened ++ [role.fd] else net.opened} := by
  have among : ∀ {fd}, fd ∈ (if role.srt.isSome then net.opened ++ [role.fd] else net.opened) ↔
      fd ∈ net.opened ∨ role.srt ≠ none ∧ fd = role.fd := by
    intro fd
    cases role.srt with
    | none => simp
    | some socket => simp
  have origin : ∀ {other found}, (net.set id role).roles other = some found →
      (other = id ∧ found = role) ∨ net.roles other = some found := by
    intro other found known
    by_cases same : other = id
    · subst same
      rw [Net.set_self] at known
      exact .inl ⟨rfl,(Option.some.inj known).symm⟩
    · rw [Net.set_other net role same] at known
      exact .inr known
  have kept : ∀ {other found}, net.roles other = some found → (net.set id role).roles other = some found := by
    intro other found known
    rw [Net.set_other net role (by rintro rfl; rw [unknown] at known; cases known)]
    exact known
  have opens : role.Numbered → role.srt ≠ none := fun numbered =>
    numbered.elim (fun isOpen => isOpen) fun registered => absurd unregistered registered
  have strange : ∀ {other found}, net.roles other = some found → found.Numbered → role.Numbered → found.fd ≠ role.fd := by
    intro other found known numbered new same
    have recorded := sound.recorded known numbered
    rw [same] at recorded
    exact (fresh (Option.isSome_iff_ne_none.mpr (opens new))).2 recorded
  refine ⟨?apart,?nonzero,?subscribed,?opened,sound.closed,?recorded,?unclosed,?known,?accounted⟩
  case apart =>
    intro one other after after' found found' numbered numbered' same
    obtain ⟨rfl,rfl⟩ | was := origin found
    · obtain ⟨rfl,_⟩ | was' := origin found'
      · rfl
      · exact absurd same.symm (strange was' numbered' numbered)
    · obtain ⟨rfl,rfl⟩ | was' := origin found'
      · exact absurd same (strange was numbered numbered')
      · exact sound.apart was was' numbered numbered' same
  case nonzero =>
    intro other found known isOpen
    obtain ⟨rfl,rfl⟩ | was := origin known
    · exact (fresh (Option.isSome_iff_ne_none.mpr isOpen)).1
    · exact sound.nonzero was isOpen
  case subscribed =>
    intro sub
    refine (sound.subscribed sub).trans ⟨?_,?_⟩
    · rintro ⟨other,found,known,watched⟩
      exact ⟨other,found,kept known,watched⟩
    · rintro ⟨other,found,known,isOpen,registered,rfl⟩
      obtain ⟨rfl,rfl⟩ | was := origin known
      · exact absurd unregistered registered
      · exact ⟨other,found,was,isOpen,registered,rfl⟩
  case opened =>
    dsimp only
    split
    · rename_i isOpen
      exact List.nodup_append.mpr ⟨sound.opened,List.pairwise_singleton ..,fun fd among _ new => by
        rintro rfl
        cases List.mem_singleton.mp new
        exact (fresh isOpen).2 among⟩
    · exact sound.opened
  case recorded =>
    intro other found known numbered
    obtain ⟨rfl,rfl⟩ | was := origin known
    · exact among.mpr (.inr ⟨opens numbered,rfl⟩)
    · exact among.mpr (.inl (sound.recorded was numbered))
  case unclosed =>
    intro other found known isOpen
    obtain ⟨rfl,rfl⟩ | was := origin known
    · exact fun closed => (fresh (Option.isSome_iff_ne_none.mpr isOpen)).2 (sound.known _ closed)
    · exact sound.unclosed was isOpen
  case known => exact fun fd closed => among.mpr (.inl (sound.known fd closed))
  case accounted =>
    intro fd here
    obtain before | ⟨isOpen,rfl⟩ := among.mp here
    · obtain closed | ⟨other,found,known,watched⟩ := sound.accounted fd before
      · exact .inl closed
      · exact .inr ⟨other,found,kept known,watched⟩
    · exact .inr ⟨id,role,Net.set_self net id role,rfl,isOpen⟩

end Sockets

end SrtLiveServer.WorkerGroup
