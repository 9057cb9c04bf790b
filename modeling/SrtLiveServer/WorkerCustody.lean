import SrtLiveServer.WorkerSockets
import Mathlib.Data.List.Nodup

/-! What holds in every state the workers reach: a container watches the open sockets of its
worker's role map and nothing else, and a role that was handed over is in one place until
its socket is closed. -/
namespace SrtLiveServer.WorkerGroup
open PublisherAuth (RoleState)
open CloseNotification (Call Op)
open Transition Custody

section Workers

/-- Roles a worker has off the list and not, or not yet, in its map. -/
def Phase.hand : Phase → List Nat
  | .reaping stale => stale
  | .adopting id => [id]
  | _ => []

def Worker.held (worker : Worker) : List Nat := worker.phase.hand ++ worker.roleMap.map Prod.snd ++ worker.waitHttp

/-- The list, and the workers by their numbers. -/
def World.holds (s : World) : Option Nat → List Nat
  | none => s.backlog
  | some w => (s.workers w).held

/-- What a worker can rely on in the loop it is in. -/
def Phase.Fits (roleMap : List (Nat × Nat)) (workerConnections : Nat) : Phase → Prop
  | .adopting _ => roleMap.length < workerConnections
  | .reading socks => ∀ fd ∈ socks, fd ∈ roleMap.map Prod.fst
  | .checkInvalid todo => todo.Sublist roleMap
  | .ended => roleMap = []
  | _ => True

structure Worker.Sound (worker : Worker) (workerConnections : Nat) : Prop where
  quiet : worker.waitHttp = []
  keys : (worker.roleMap.map Prod.fst).Nodup
  room : worker.roleMap.length ≤ workerConnections
  fits : worker.phase.Fits worker.roleMap workerConnections

structure World.Sound (s : World) : Prop where
  net : s.net.Sound
  exclusive : Exclusive s.holds
  known : ∀ {id}, Held s.holds id → s.net.roles id ≠ none
  loose : ∀ {id}, ¬ Held s.holds id → s.net.Gone id
  mapped : ∀ {w fd id role}, (fd,id) ∈ (s.workers w).roleMap → s.net.roles id = some role → role.fd = fd ∧ role.eid = eidOf w
  waiting : ∀ {id role}, (id ∈ s.backlog ∨ ∃ w, id ∈ (s.workers w).phase.hand) → s.net.roles id = some role →
    role.srt ≠ none → role.eid = 0
  workers : ∀ w, (s.workers w).Sound s.workerConnections
  stray : s.stray = []

theorem World.start_sound (threads workerConnections : Nat) : (World.start threads workerConnections).Sound where
  net := by
    refine ⟨?_,?_,fun sub => ⟨?_,?_⟩,List.nodup_nil,List.nodup_nil,?_,?_,?_,?_⟩
    · rintro _ _ _ _ ⟨⟩
    · rintro _ _ ⟨⟩
    · rintro ⟨⟩
    · rintro ⟨_,_,⟨⟩,_⟩
    · rintro _ _ ⟨⟩
    · rintro _ _ ⟨⟩
    · rintro _ ⟨⟩
    · rintro _ ⟨⟩
  exclusive := by
    refine ⟨fun place => ?_,fun {place _ _} here => ?_⟩
    · cases place <;> exact List.nodup_nil
    · cases place <;> cases here
  known := by
    rintro id ⟨place,here⟩
    cases place <;> cases here
  loose := by rintro id _ role ⟨⟩
  mapped := by rintro _ _ _ _ ⟨⟩
  waiting := by rintro _ _ _ ⟨⟩
  workers := fun _ => ⟨rfl,List.nodup_nil,Nat.zero_le _,trivial⟩
  stray := rfl

theorem Role.Follows.mapped {role next : Role} (follows : role.Follows next) {fd w : Nat}
    (mapped : role.fd = fd ∧ role.eid = eidOf w) : next.fd = fd ∧ next.eid = eidOf w := by
  obtain ⟨fd,eid⟩ := mapped
  obtain same | ⟨zero,_⟩ := follows.eid
  · exact ⟨follows.fd.trans fd,same.trans eid⟩
  · exact absurd (eid.symm.trans zero) (Nat.succ_ne_zero w)

theorem Role.Follows.waiting {role next : Role} (follows : role.Follows next) (isOpen : next.srt ≠ none)
    (waiting : role.srt ≠ none → role.eid = 0) : next.eid = 0 := by
  obtain same | ⟨_,closed⟩ := follows.eid
  · exact same.trans (waiting fun closed => isOpen (follows.closes closed))
  · exact absurd closed isOpen

variable {s : World} {w : Nat}

@[simp] theorem World.setWorker_self (s : World) (w : Nat) (worker : Worker) : (s.setWorker w worker).workers w = worker :=
  Function.update_self ..

theorem World.setWorker_other (s : World) {w other : Nat} (worker : Worker) (away : other ≠ w) :
    (s.setWorker w worker).workers other = s.workers other := Function.update_of_ne away _ _

theorem Worker.held_of_hand {worker : Worker} {id : Nat} (among : id ∈ worker.phase.hand) : id ∈ worker.held :=
  List.mem_append_left _ (List.mem_append_left _ among)

theorem Worker.held_of_map {worker : Worker} {fd id : Nat} (among : (fd,id) ∈ worker.roleMap) : id ∈ worker.held :=
  List.mem_append_left _ (List.mem_append_right _ (List.mem_map_of_mem (f := Prod.snd) among))

/-- One worker drives roles of its own, and puts none aside but those whose socket is gone. -/
theorem World.Sound.advance (sound : s.Sound) {net : Net} {worker : Worker} (netSound : net.Sound)
    (evolves : s.net.Evolves net) (ok : worker.Sound s.workerConnections)
    (held : worker.held.Subperm (s.workers w).held) (roleMap : worker.roleMap ⊆ (s.workers w).roleMap)
    (hand : worker.phase.hand ⊆ (s.workers w).phase.hand)
    (dropped : ∀ id ∈ (s.workers w).held, id ∈ worker.held ∨ net.Gone id) :
    ({s with net := net}.setWorker w worker).Sound := by
  have fewer : ∀ place, (({s with net := net}.setWorker w worker).holds place).Subperm (s.holds place) := by
    intro place
    cases place with
    | none => exact List.Subperm.refl _
    | some other =>
      by_cases same : other = w
      · subst same
        simpa only [World.holds,World.setWorker_self] using held
      · simp only [World.holds,World.setWorker_other _ worker same]
        exact List.Subperm.refl _
  have was : ∀ {id}, Held ({s with net := net}.setWorker w worker).holds id → Held s.holds id :=
    fun ⟨place,here⟩ => ⟨place,(fewer place).subset here⟩
  refine ⟨netSound,sound.exclusive.shrink fewer,fun here => ?_,fun {id} away => ?_,?mapped,?waiting,?workers,sound.stray⟩
  · obtain ⟨role,before⟩ := Option.ne_none_iff_exists'.mp (sound.known (was here))
    obtain ⟨role',after,_⟩ := evolves.forward before
    exact Option.ne_none_iff_exists'.mpr ⟨role',after⟩
  · by_cases here : Held s.holds id
    · obtain ⟨place,here⟩ := here
      have gone : ∀ other, id ∈ s.holds other → id ∉ ({s with net := net}.setWorker w worker).holds other :=
        fun other _ still => away ⟨other,still⟩
      cases place with
      | none => exact absurd here (gone none here)
      | some other =>
        by_cases same : other = w
        · subst same
          obtain still | gone' := dropped id here
          · exact absurd (by simpa only [World.holds,World.setWorker_self] using still) (gone _ here)
          · exact gone'
        · exact absurd (by simpa only [World.holds,World.setWorker_other _ worker same] using here) (gone _ here)
    · exact (sound.loose here).evolves evolves
  case mapped =>
    intro other fd id role' among found
    obtain ⟨role,before,follows⟩ := evolves.back found
    have mapped : role.fd = fd ∧ role.eid = eidOf other := by
      by_cases same : other = w
      · subst same
        rw [World.setWorker_self] at among
        exact sound.mapped (roleMap among) before
      · rw [World.setWorker_other _ worker same] at among
        exact sound.mapped among before
    exact follows.mapped mapped
  case waiting =>
    intro id role' among found isOpen
    obtain ⟨role,before,follows⟩ := evolves.back found
    refine follows.waiting isOpen (sound.waiting (among.imp_right fun ⟨other,here⟩ => ?_) before)
    by_cases same : other = w
    · subst same
      rw [World.setWorker_self] at here
      exact ⟨other,hand here⟩
    · rw [World.setWorker_other _ worker same] at here
      exact ⟨other,here⟩
  case workers =>
    intro other
    by_cases same : other = w
    · subst same
      rw [World.setWorker_self]
      exact ok
    · rw [World.setWorker_other _ worker same]
      exact sound.workers other

theorem World.Sound.goto (sound : s.Sound) {net : Net} (netSound : net.Sound) (evolves : s.net.Evolves net) {phase : Phase}
    (hands : phase.hand = (s.workers w).phase.hand) (fits : phase.Fits (s.workers w).roleMap s.workerConnections) :
    ({s with net := net}.setWorker w ((s.workers w).goto phase)).Sound := by
  have held : ((s.workers w).goto phase).held = (s.workers w).held := by
    simp only [Worker.held,Worker.goto,hands]
  have ok : ((s.workers w).goto phase).Sound s.workerConnections :=
    ⟨(sound.workers w).quiet,(sound.workers w).keys,(sound.workers w).room,fits⟩
  refine sound.advance netSound evolves ok (held ▸ List.Subperm.refl _) (fun _ among => among) (hands ▸ fun _ among => among)
    fun id here => .inl (held ▸ here)

theorem World.Sound.pass (sound : s.Sound) {phase : Phase} (hands : phase.hand = (s.workers w).phase.hand)
    (fits : phase.Fits (s.workers w).roleMap s.workerConnections) : (s.setWorker w ((s.workers w).goto phase)).Sound :=
  sound.goto sound.net (.refl s.net) hands fits

theorem World.Sound.clear (sound : s.Sound) (phase : (s.workers w).phase = .loop) (threw : Bool) :
    ({s with net := s.net.uninitAll threw ((s.workers w).roleMap.map Prod.snd)}.setWorker w
      {s.workers w with roleMap := [],phase := .ended}).Sound := by
  have quiet := (sound.workers w).quiet
  have ok : Worker.Sound {s.workers w with roleMap := [],phase := .ended} s.workerConnections :=
    ⟨quiet,List.nodup_nil,Nat.zero_le _,rfl⟩
  refine sound.advance (sound.net.uninitAll threw _) (s.net.uninitAll_evolves threw _) ok ?_ (List.nil_subset _)
    (List.nil_subset _) fun id here => .inr ?_
  · simp only [Worker.held,quiet]
    exact List.nil_subperm
  · refine s.net.uninitAll_gone threw ?_
    simpa [Worker.held,phase,quiet,Phase.hand] using here

theorem eraseRole_sublist (fd : Nat) (roleMap : List (Nat × Nat)) : (eraseRole fd roleMap).Sublist roleMap := List.filter_sublist

theorem eraseRole_erased {fd id other : Nat} {roleMap : List (Nat × Nat)} (keys : (roleMap.map Prod.fst).Nodup)
    (entry : (fd,id) ∈ roleMap) (among : other ∈ roleMap.map Prod.snd) :
    other ∈ (eraseRole fd roleMap).map Prod.snd ∨ other = id := by
  obtain ⟨⟨key,found⟩,here,rfl⟩ := List.mem_map.mp among
  by_cases same : key = fd
  · subst same
    exact .inr (congrArg Prod.snd (List.inj_on_of_nodup_map keys here entry rfl))
  · exact .inl (List.mem_map_of_mem (f := Prod.snd) (List.mem_filter.mpr ⟨here,by simpa using same⟩))

theorem eraseRole_rest {fd id : Nat} {rest roleMap : List (Nat × Nat)} (keys : (roleMap.map Prod.fst).Nodup)
    (todo : ((fd,id)::rest).Sublist roleMap) : rest.Sublist (eraseRole fd roleMap) := by
  have distinct : (((fd,id)::rest).map Prod.fst).Nodup := keys.sublist (todo.map Prod.fst)
  have others : ∀ entry ∈ rest, entry.1 ≠ fd := by
    intro entry among same
    have here : entry.1 ∈ rest.map Prod.fst := List.mem_map_of_mem (f := Prod.fst) among
    rw [same] at here
    exact (List.nodup_cons.mp distinct).1 here
  have kept : eraseRole fd rest = rest := List.filter_eq_self.mpr fun entry among => by simpa using others entry among
  rw [← kept]
  exact ((List.sublist_cons_self _ _).trans todo).filter _

theorem Net.uninit_request {net : Net} {id : Nat} {role : Role} (known : net.roles id = some role) (ended : role.state ≠ .inited)
    (threw : Bool) : (net.uninit threw id).checkHttpClient id = false := by
  have closed : role.srt = none := by
    by_contra isOpen
    exact ended (role.inited isOpen)
  rw [Net.checkHttpClient,Net.uninit,Net.call_self known]
  show ((role.toRole.uninit threw).1.httpFuture).isSome = false
  rw [uninit_ended closed]
  rfl

theorem World.Sound.checkInvalid (sound : s.Sound) {fd id : Nat} {rest : List (Nat × Nat)}
    (phase : (s.workers w).phase = .checkInvalid ((fd,id)::rest)) (answers : Answers) :
    (s.checkInvalid w fd id rest answers).Sound := by
  have ok := sound.workers w
  have fits : ((fd,id)::rest).Sublist (s.workers w).roleMap := by
    have fits := ok.fits
    rw [phase] at fits
    exact fits
  have entry : (fd,id) ∈ (s.workers w).roleMap := fits.subset List.mem_cons_self
  have hands : (Phase.checkInvalid rest).hand = (s.workers w).phase.hand := by rw [phase]; rfl
  unfold World.checkInvalid
  dsimp only
  have seenSound := sound.net.call id ⟨.getState answers.idle answers.broken,answers.threw⟩
  have sees := s.net.call_evolves id ⟨.getState answers.idle answers.broken,answers.threw⟩
  split
  · rename_i unknown
    exact absurd (sees.unknown unknown) (sound.known ⟨some w,Worker.held_of_map entry⟩)
  · rename_i role known
    split
    · exact sound.goto seenSound sees hands ((List.sublist_cons_self _ _).trans fits)
    · -- the role is torn down, and has no request that it would have to wait for
      rename_i ended
      have noRequest := Net.uninit_request known ended answers.threw
      simp only [noRequest,Bool.false_eq_true,if_false]
      have fewer := eraseRole_sublist fd (s.workers w).roleMap
      refine sound.advance (seenSound.call id _) (sees.trans (Net.call_evolves _ id _)) ?_ ?_ fewer.subset ?_ ?_
      · exact ⟨ok.quiet,ok.keys.sublist (fewer.map Prod.fst),fewer.length_le.trans ok.room,eraseRole_rest ok.keys fits⟩
      · simp only [Worker.held,Worker.goto,hands]
        exact (((fewer.map Prod.snd).append_left _).append_right _).subperm
      · exact fun _ none => by cases none
      · intro other here
        simp only [Worker.held,ok.quiet,phase,Phase.hand,List.nil_append,List.append_nil] at here
        obtain still | rfl := eraseRole_erased ok.keys entry here
        · exact .inl (by simpa only [Worker.held,Worker.goto,Phase.hand,ok.quiet,List.nil_append,List.append_nil] using still)
        · exact .inr (Net.uninit_gone _ answers.threw other)

theorem Worker.held_adopting {worker : Worker} {id : Nat} (phase : worker.phase = .adopting id) (quiet : worker.waitHttp = []) :
    worker.held = id::worker.roleMap.map Prod.snd := by
  simp only [Worker.held,phase,quiet,Phase.hand,List.append_nil,List.singleton_append]

theorem Worker.held_loop {worker : Worker} (quiet : worker.waitHttp = []) : (worker.goto .loop).held = worker.roleMap.map Prod.snd := by
  simp only [Worker.held,Worker.goto,quiet,Phase.hand,List.append_nil,List.nil_append]

theorem World.Sound.letGo (sound : s.Sound) {id : Nat} (phase : (s.workers w).phase = .adopting id) {net : Net}
    (netSound : net.Sound) (evolves : s.net.Evolves net) (gone : net.Gone id) :
    ({s with net := net}.setWorker w ((s.workers w).goto .loop)).Sound := by
  have ok := sound.workers w
  have before := Worker.held_adopting phase ok.quiet
  have after := Worker.held_loop ok.quiet
  refine sound.advance netSound evolves ⟨ok.quiet,ok.keys,ok.room,trivial⟩ ?_ (fun _ among => among) (List.nil_subset _) ?_
  · rw [before,after]
    exact (List.sublist_cons_self _ _).subperm
  · intro other here
    rw [before] at here
    rw [after]
    obtain rfl | still := List.mem_cons.mp here
    · exact .inr gone
    · exact .inl still

theorem insertRole_perm {fd id : Nat} {roleMap : List (Nat × Nat)} (fresh : fd ∉ roleMap.map Prod.fst) :
    (insertRole fd id roleMap).Perm ((fd,id)::roleMap) := by
  induction roleMap with
  | nil => exact .refl _
  | cons entry rest ih =>
    obtain ⟨key,role⟩ := entry
    obtain ⟨apart,fresh⟩ := not_or.mp (mt List.mem_cons.mpr fresh)
    rw [insertRole]
    split
    · exact .refl _
    · exact ((ih fresh).cons _).trans (.swap ..)

/-- The role that a worker adopts is in no container and in no role map, nor is its number. -/
theorem World.Sound.adoptee (sound : s.Sound) {id : Nat} {role : Role} (phase : (s.workers w).phase = .adopting id)
    (known : s.net.roles id = some role) (isOpen : role.srt ≠ none) :
    role.eid = 0 ∧ (∀ {other fd}, (fd,id) ∉ (s.workers other).roleMap) ∧ role.fd ∉ (s.workers w).roleMap.map Prod.fst := by
  have inHand : id ∈ (s.workers w).phase.hand := by rw [phase]; exact List.mem_singleton_self id
  have unregistered : role.eid = 0 := sound.waiting (.inr ⟨w,inHand⟩) known isOpen
  have unmapped : ∀ {other fd}, (fd,id) ∉ (s.workers other).roleMap := by
    intro other fd among
    have eid := (sound.mapped among known).2
    rw [unregistered] at eid
    exact Nat.succ_ne_zero other eid.symm
  refine ⟨unregistered,unmapped,fun among => ?_⟩
  obtain ⟨⟨_,other⟩,here,rfl⟩ := List.mem_map.mp among
  obtain ⟨role',found⟩ := Option.ne_none_iff_exists'.mp (sound.known ⟨some w,Worker.held_of_map here⟩)
  obtain ⟨fd,eid⟩ := sound.mapped here found
  have numbered : role'.Numbered := .inr (by rw [eid]; exact Nat.succ_ne_zero w)
  cases sound.net.apart found known numbered (.inl isOpen) fd
  exact unmapped here

theorem Net.register_origin {net : Net} {id : Nat} {role : Role} (known : net.roles id = some role) {eid : Nat}
    (container : eid ≠ 0) : ∃ noted : Role, noted.fd = role.fd ∧ noted.eid = eid ∧
      (∀ {other found}, (net.addToEpoll id eid true).roles other = some found →
        (other = id ∧ found = noted) ∨ (other ≠ id ∧ net.roles other = some found)) ∧
      ∀ {other}, net.roles other ≠ none → (net.addToEpoll id eid true).roles other ≠ none := by
  obtain ⟨noted,roles,fd,eid,_,_⟩ := Net.register_roles known container
  refine ⟨noted,fd,eid,?_,?_⟩
  · intro other found after
    rw [roles] at after
    by_cases same : other = id
    · subst same
      rw [Function.update_self] at after
      exact .inl ⟨rfl,(Option.some.inj after).symm⟩
    · rw [Function.update_of_ne same] at after
      exact .inr ⟨same,after⟩
  · intro other was
    rw [roles]
    by_cases same : other = id
    · subst same
      rw [Function.update_self]
      exact Option.some_ne_none noted
    · rw [Function.update_of_ne same]
      exact was

theorem World.Sound.enter (sound : s.Sound) {id : Nat} {role : Role} (phase : (s.workers w).phase = .adopting id)
    (known : s.net.roles id = some role) (isOpen : role.srt ≠ none) :
    ({s with net := s.net.addToEpoll id (eidOf w) true}.setWorker w
      {(s.workers w).goto .loop with roleMap := insertRole role.fd id (s.workers w).roleMap}).Sound := by
  have ok := sound.workers w
  have room : (s.workers w).roleMap.length < s.workerConnections := by
    have fits := ok.fits
    rw [phase] at fits
    exact fits
  have container : eidOf w ≠ 0 := Nat.succ_ne_zero w
  have inHand : id ∈ (s.workers w).phase.hand := by rw [phase]; exact List.mem_singleton_self id
  obtain ⟨unregistered,unmapped,fresh⟩ := sound.adoptee phase known isOpen
  have before := Worker.held_adopting phase ok.quiet
  have inserted : (insertRole role.fd id _).Perm _ := insertRole_perm fresh
  obtain ⟨noted,fd,eid,origin,stays⟩ := Net.register_origin known container
  let entered : Worker := {(s.workers w).goto .loop with roleMap := insertRole role.fd id (s.workers w).roleMap}
  let next : World := {s with net := s.net.addToEpoll id (eidOf w) true}.setWorker w entered
  have held : entered.held.Perm (s.workers w).held := by
    rw [before]
    have after : entered.held = (insertRole role.fd id (s.workers w).roleMap).map Prod.snd := by
      simp only [entered,Worker.held,Worker.goto,ok.quiet,Phase.hand,List.append_nil,List.nil_append]
    rw [after]
    exact inserted.map Prod.snd
  have self : next.workers w = entered := World.setWorker_self _ w entered
  have others : ∀ {other}, other ≠ w → next.workers other = s.workers other := fun away => World.setWorker_other _ entered away
  have same : ∀ place, (next.holds place).Perm (s.holds place) := by
    intro place
    cases place with
    | none => exact .refl _
    | some other =>
      by_cases here : other = w
      · subst here
        show (next.workers other).held.Perm _
        rw [self]
        exact held
      · show (next.workers other).held.Perm _
        rw [others here]
        exact .refl _
  have was : ∀ {other}, Held next.holds other ↔ Held s.holds other :=
    fun {other} => ⟨fun ⟨place,here⟩ => ⟨place,(same place).subset here⟩,fun ⟨place,here⟩ => ⟨place,(same place).symm.subset here⟩⟩
  refine ⟨sound.net.register known isOpen unregistered container,sound.exclusive.shrink fun place => (same place).subperm,
    fun here => stays (sound.known (was.mp here)),?loose,?mapped,?waiting,?workers,sound.stray⟩
  case loose =>
    intro other away found after
    obtain ⟨rfl,_⟩ | ⟨_,before⟩ := origin after
    · exact absurd (was.mpr ⟨some w,Worker.held_of_hand inHand⟩) away
    · exact sound.loose (fun here => away (was.mpr here)) found before
  case mapped =>
    intro other fd' id' found among after
    by_cases here : other = w
    · subst here
      rw [self] at among
      obtain new | old := List.mem_cons.mp (inserted.subset among)
      · cases new
        obtain ⟨_,rfl⟩ | ⟨away,_⟩ := origin after
        · exact ⟨fd,eid⟩
        · exact absurd rfl away
      · obtain ⟨rfl,_⟩ | ⟨_,before⟩ := origin after
        · exact absurd old unmapped
        · exact sound.mapped old before
    · rw [others here] at among
      obtain ⟨rfl,_⟩ | ⟨_,before⟩ := origin after
      · exact absurd among unmapped
      · exact sound.mapped among before
  case waiting =>
    intro other found among after isOpen'
    have placed : other ∈ s.backlog ∨ ∃ spot, spot ≠ w ∧ other ∈ (s.workers spot).phase.hand := by
      refine among.imp_right fun ⟨spot,here⟩ => ?_
      by_cases same : spot = w
      · subst same
        rw [self] at here
        cases here
      · rw [others same] at here
        exact ⟨spot,same,here⟩
    obtain ⟨rfl,_⟩ | ⟨_,known'⟩ := origin after
    · -- it is in this worker's hands, so neither on the list nor in another's
      have mine : other ∈ s.holds (some w) := Worker.held_of_hand inHand
      obtain listed | ⟨spot,away,elsewhere⟩ := placed
      · have onList : other ∈ s.holds none := listed
        exact absurd (sound.exclusive.unique onList mine) (Option.some_ne_none w).symm
      · have theirs : other ∈ s.holds (some spot) := Worker.held_of_hand elsewhere
        exact absurd (Option.some.inj (sound.exclusive.unique theirs mine)) away
    · exact sound.waiting (placed.imp_right fun ⟨spot,_,here⟩ => ⟨spot,here⟩) known' isOpen'
  case workers =>
    intro other
    by_cases here : other = w
    · subst here
      rw [self]
      refine ⟨ok.quiet,(inserted.map Prod.fst).nodup_iff.mpr (List.nodup_cons.mpr ⟨fresh,ok.keys⟩),?_,trivial⟩
      rw [inserted.length_eq]
      exact room
    · rw [others here]
      exact sound.workers other

theorem World.Sound.adopt (sound : s.Sound) {id : Nat} (phase : (s.workers w).phase = .adopting id) (answers : Answers) :
    (s.adopt w id answers).Sound := by
  have inHand : id ∈ (s.workers w).phase.hand := by rw [phase]; exact List.mem_singleton_self id
  obtain ⟨role,known⟩ := Option.ne_none_iff_exists'.mp (sound.known ⟨some w,Worker.held_of_hand inHand⟩)
  unfold World.adopt
  rw [known]
  dsimp only
  by_cases closed : role.srt = none
  · have zero : role.getFd = 0 := by rw [Role.getFd,closed]; rfl
    rw [if_pos zero]
    exact sound.letGo phase (sound.net.call id _) (s.net.call_evolves id _) (s.net.uninit_gone answers.threw id)
  · have isOpen : role.srt.isSome = true := Option.isSome_iff_ne_none.mpr closed
    have number : role.getFd = role.fd := by rw [Role.getFd,isOpen]; rfl
    rw [number,if_neg (sound.net.nonzero known closed)]
    cases added : answers.added with
    | true => exact sound.enter phase known closed
    | false =>
      have unregistered : role.eid = 0 := sound.waiting (.inr ⟨w,inHand⟩) known closed
      have container : eidOf w ≠ 0 := Nat.succ_ne_zero w
      exact sound.letGo phase (sound.net.refuse known closed unregistered container answers.threw)
        (Net.refuse_evolves known unregistered container answers.threw) (Net.uninit_gone _ answers.threw id)

theorem World.Sound.take (sound : s.Sound) {backlog moved : List Nat} {phase : Phase} (hands : (s.workers w).phase.hand = [])
    (splits : s.backlog.Perm (moved ++ backlog)) (takes : phase.hand = moved)
    (fits : phase.Fits (s.workers w).roleMap s.workerConnections) :
    ({s with backlog := backlog}.setWorker w ((s.workers w).goto phase)).Sound := by
  have ok := sound.workers w
  let next : World := {s with backlog := backlog}.setWorker w ((s.workers w).goto phase)
  have self : next.workers w = (s.workers w).goto phase := World.setWorker_self _ w _
  have others : ∀ {other}, other ≠ w → next.workers other = s.workers other := fun away => World.setWorker_other _ _ away
  have held : (next.workers w).held = moved ++ (s.workers w).held := by
    rw [self]
    simp only [Worker.held,Worker.goto,takes,hands,List.nil_append,List.append_assoc]
  have kept : ∀ place, place ≠ none → place ≠ some w → next.holds place = s.holds place := by
    intro place listed away
    cases place with
    | none => exact absurd rfl listed
    | some other => exact congrArg Worker.held (others fun same => away (congrArg some same))
  have was : ∀ {id}, Held next.holds id ↔ Held s.holds id := by
    intro id
    constructor
    · rintro ⟨place,here⟩
      by_cases listed : place = none
      · subst listed
        exact ⟨none,splits.symm.subset (List.mem_append_right _ here)⟩
      · by_cases mine : place = some w
        · subst mine
          have here : id ∈ moved ++ (s.workers w).held := held ▸ here
          obtain new | old := List.mem_append.mp here
          · exact ⟨none,splits.symm.subset (List.mem_append_left _ new)⟩
          · exact ⟨some w,old⟩
        · exact ⟨place,kept place listed mine ▸ here⟩
    · rintro ⟨place,here⟩
      by_cases listed : place = none
      · subst listed
        obtain new | old := List.mem_append.mp (splits.subset here)
        · exact ⟨some w,show id ∈ (next.workers w).held from held ▸ List.mem_append_left _ new⟩
        · exact ⟨none,old⟩
      · by_cases mine : place = some w
        · subst mine
          exact ⟨some w,show id ∈ (next.workers w).held from held ▸ List.mem_append_right _ here⟩
        · exact ⟨place,(kept place listed mine).symm ▸ here⟩
  have gives : (s.holds none).Perm (moved ++ next.holds none) := splits
  have gains : (next.holds (some w)).Perm (moved ++ s.holds (some w)) := List.Perm.of_eq held
  refine ⟨sound.net,sound.exclusive.move (Option.some_ne_none w).symm gives gains kept,
    fun here => sound.known (was.mp here),fun away => sound.loose (mt was.mpr away),?mapped,?waiting,?workers,sound.stray⟩
  case mapped =>
    intro other fd id role among
    refine sound.mapped (w := other) ?_
    by_cases same : other = w
    · subst same
      rw [self] at among
      exact among
    · rw [others same] at among
      exact among
  case waiting =>
    intro id role among
    refine sound.waiting ?_
    obtain listed | ⟨other,here⟩ := among
    · exact .inl (splits.symm.subset (List.mem_append_right _ listed))
    · by_cases same : other = w
      · subst same
        rw [self] at here
        exact .inl (splits.symm.subset (List.mem_append_left _ (takes ▸ here)))
      · rw [others same] at here
        exact .inr ⟨other,here⟩
  case workers =>
    intro other
    by_cases same : other = w
    · subst same
      rw [self]
      exact ⟨ok.quiet,ok.keys,ok.room,fits⟩
    · rw [others same]
      exact sound.workers other

theorem World.Sound.flags (sound : s.Sound) (reload exit : Bool) :
    (s.setWorker w {s.workers w with reload := reload,exit := exit}).Sound := by
  have ok := sound.workers w
  exact sound.advance sound.net (.refl s.net) ⟨ok.quiet,ok.keys,ok.room,ok.fits⟩ (.refl _) (fun _ among => among)
    (fun _ among => among) fun _ here => .inl here

theorem World.Sound.watched (sound : s.Sound) {sub : Subscription} (among : sub ∈ s.net.subscribed) (here : sub.eid = eidOf w) :
    ∃ id role, (sub.fd,id) ∈ (s.workers w).roleMap ∧ s.net.roles id = some role ∧ role.srt ≠ none ∧ sub = role.subscription := by
  obtain ⟨id,role,known,isOpen,registered,rfl⟩ := (sound.net.subscribed sub).mp among
  have held : Held s.holds id := by
    by_contra away
    exact isOpen (sound.loose away role known)
  obtain ⟨place,here'⟩ := held
  cases place with
  | none => exact absurd (sound.waiting (.inl here') known isOpen) registered
  | some other =>
    rw [World.holds,Worker.held,(sound.workers other).quiet,List.append_nil] at here'
    obtain inHand | mapped := List.mem_append.mp here'
    · exact absurd (sound.waiting (.inr ⟨other,inHand⟩) known isOpen) registered
    · obtain ⟨⟨fd,_⟩,entry,rfl⟩ := List.mem_map.mp mapped
      obtain ⟨rfl,eid⟩ := sound.mapped entry known
      cases Nat.succ.inj (eid.symm.trans here)
      exact ⟨_,role,entry,known,isOpen,rfl⟩

theorem lookup_none {fd : Nat} {roleMap : List (Nat × Nat)} (missing : roleMap.lookup fd = none) : fd ∉ roleMap.map Prod.fst := by
  induction roleMap with
  | nil => exact List.not_mem_nil
  | cons entry rest ih =>
    obtain ⟨key,role⟩ := entry
    rw [List.lookup_cons] at missing
    split at missing
    · cases missing
    · rename_i apart
      exact fun among => (List.mem_cons.mp among).elim (by simpa using apart) (ih missing)

theorem World.Sound.reaped (sound : s.Sound) {id : Nat} {rest : List Nat} (phase : (s.workers w).phase = .reaping (id::rest))
    (threw : Bool) :
    ({s with net := s.net.uninit threw id}.setWorker w ((s.workers w).goto (.reaping rest))).Sound := by
  have ok := sound.workers w
  have before : (s.workers w).held = id::(rest ++ (s.workers w).roleMap.map Prod.snd) := by
    simp only [Worker.held,phase,ok.quiet,Phase.hand,List.append_nil,List.cons_append]
  have after : ((s.workers w).goto (.reaping rest)).held = rest ++ (s.workers w).roleMap.map Prod.snd := by
    simp only [Worker.held,Worker.goto,ok.quiet,Phase.hand,List.append_nil]
  refine sound.advance (sound.net.call id _) (s.net.call_evolves id _) ⟨ok.quiet,ok.keys,ok.room,trivial⟩ ?_
    (fun _ among => among) ?_ ?_
  · rw [before,after]
    exact (List.sublist_cons_self _ _).subperm
  · rw [phase]
    exact fun _ among => List.mem_cons_of_mem _ among
  · intro other here
    rw [before] at here
    rw [after]
    obtain rfl | still := List.mem_cons.mp here
    · exact .inr (s.net.uninit_gone threw other)
    · exact .inl still

theorem World.Sound.turn (sound : s.Sound) {answers : Answers} {next : World} (turned : s.turn w answers = some next) :
    next.Sound := by
  have ok := sound.workers w
  have fits := ok.fits
  unfold World.turn at turned
  cases phase : (s.workers w).phase with
  | ended =>
    simp only [phase] at turned
    cases turned
  | loop =>
    simp only [phase] at turned
    split at turned
    · cases turned
      exact sound.clear phase answers.threw
    split at turned
    · cases turned
      have flagged := sound.flags (w := w) (s.workers w).reload true
      simp only [phase] at flagged
      exact flagged
    split at turned
    · rename_i reported
      cases turned
      refine sound.pass (by rw [phase]; rfl) fun fd among => ?_
      obtain ⟨sub,watched,here,rfl⟩ := reported fd among
      obtain ⟨id,_,entry,_⟩ := sound.watched watched here
      exact List.mem_map_of_mem (f := Prod.fst) entry
    · cases turned
  | reading socks =>
    rw [phase] at fits
    cases socks with
    | nil =>
      simp only [phase] at turned
      cases turned
      exact sound.pass (by rw [phase]; rfl) trivial
    | cons fd rest =>
      simp only [phase] at turned
      have later : (Phase.reading rest).Fits (s.workers w).roleMap s.workerConnections :=
        fun fd among => fits fd (List.mem_cons_of_mem _ among)
      split at turned
      · rename_i missing
        exact absurd (fits fd List.mem_cons_self) (lookup_none missing)
      · cases turned
        exact sound.goto (sound.net.handle _ _ _) (s.net.handle_evolves _ _ _) (by rw [phase]; rfl) later
  | egress todo =>
    cases todo with
    | nil =>
      simp only [phase] at turned
      cases turned
      refine sound.pass ?_ ?_
      · rw [phase]
        split <;> rfl
      · split <;> exact trivial
    | cons entry rest =>
      obtain ⟨fd,id⟩ := entry
      simp only [phase] at turned
      cases turned
      obtain ⟨egressed,evolves⟩ := sound.net.egress id answers
      exact sound.goto egressed evolves (by rw [phase]; rfl) trivial
  | idle =>
    simp only [phase,ok.quiet,checkWaitHttp] at turned
    cases turned
    have held : ({s.workers w with waitHttp := [],phase := .checkInvalid (s.workers w).roleMap} : Worker).held = (s.workers w).held := by
      simp only [Worker.held,phase,ok.quiet,Phase.hand]
    exact sound.advance sound.net (.refl s.net) ⟨rfl,ok.keys,ok.room,List.Sublist.refl _⟩ (held ▸ .refl _)
      (fun _ among => among) (List.nil_subset _) fun _ here => .inl (held ▸ here)
  | checkInvalid todo =>
    cases todo with
    | nil =>
      simp only [phase] at turned
      cases turned
      exact sound.pass (by rw [phase]; rfl) trivial
    | cons entry rest =>
      obtain ⟨fd,id⟩ := entry
      simp only [phase] at turned
      cases turned
      exact sound.checkInvalid phase answers
  | reap =>
    simp only [phase] at turned
    cases turned
    refine sound.take (by rw [phase]; rfl) ?_ rfl trivial
    exact (List.filter_append_perm _ s.backlog).symm
  | reaping stale =>
    cases stale with
    | nil =>
      simp only [phase] at turned
      cases turned
      exact sound.pass (by rw [phase]; rfl) trivial
    | cons id rest =>
      simp only [phase] at turned
      cases turned
      exact sound.reaped phase answers.threw
  | checkNew =>
    simp only [phase] at turned
    split at turned
    · cases turned
      exact sound.pass (by rw [phase]; rfl) trivial
    · rename_i room
      split at turned
      · cases turned
        exact sound.pass (by rw [phase]; rfl) trivial
      · rename_i id rest listed
        cases turned
        refine sound.take (by rw [phase]; rfl) ?_ rfl (Nat.lt_of_not_le room)
        rw [listed]
        exact .refl _
  | adopting id =>
    simp only [phase] at turned
    cases turned
    exact sound.adopt phase answers

theorem World.Sound.call (sound : s.Sound) (id : Nat) (call : Call) : World.Sound {s with net := s.net.call id call} := by
  have ok := sound.workers 0
  have idle := sound.advance (w := 0) (sound.net.call id call) (s.net.call_evolves id call) ok (.refl _) (fun _ among => among)
    (fun _ among => among) fun _ here => .inl here
  have same : ({s with net := s.net.call id call} : World).setWorker 0 (s.workers 0) = {s with net := s.net.call id call} := by
    unfold World.setWorker
    rw [Function.update_eq_self]
  exact same ▸ idle

theorem World.Sound.handoff (sound : s.Sound) {id : Nat} {role : Role} (unknown : s.net.roles id = none)
    (unregistered : role.eid = 0) (fresh : role.srt.isSome = true → role.fd ≠ 0 ∧ role.fd ∉ s.net.opened) :
    (s.handoff id role).Sound := by
  have nowhere : ¬ Held s.holds id := fun here => sound.known here unknown
  have kept : ∀ place, place ≠ none → (s.handoff id role).holds place = s.holds place := by
    intro place listed
    cases place with
    | none => exact absurd rfl listed
    | some other => rfl
  have gains : ((s.handoff id role).holds none).Perm ([id] ++ s.holds none) := List.perm_append_comm
  have was : ∀ {other}, other ≠ id → Held s.holds other → Held (s.handoff id role).holds other := by
    rintro other _ ⟨place,here⟩
    cases place with
    | none => exact ⟨none,List.mem_append_left _ here⟩
    | some w => exact ⟨some w,here⟩
  have origin : ∀ {other found}, (s.handoff id role).net.roles other = some found →
      (other = id ∧ found = role) ∨ (other ≠ id ∧ s.net.roles other = some found) := by
    intro other found known
    by_cases same : other = id
    · subst same
      rw [show (s.handoff other role).net.roles other = some role from Net.set_self ..] at known
      exact .inl ⟨rfl,(Option.some.inj known).symm⟩
    · rw [show (s.handoff id role).net.roles other = s.net.roles other from Net.set_other _ _ same] at known
      exact .inr ⟨same,known⟩
  refine ⟨sound.net.handoff unknown unregistered fresh,?exclusive,?known,?loose,?mapped,?waiting,sound.workers,sound.stray⟩
  case exclusive =>
    exact sound.exclusive.receive (List.pairwise_singleton ..) (fun other new => List.mem_singleton.mp new ▸ nowhere) gains kept
  case known =>
    rintro other ⟨place,here⟩
    by_cases same : other = id
    · subst same
      rw [show (s.handoff other role).net.roles other = some role from Net.set_self ..]
      exact Option.some_ne_none role
    · rw [show (s.handoff id role).net.roles other = s.net.roles other from Net.set_other _ _ same]
      cases place with
      | none =>
        obtain before | new := List.mem_append.mp here
        · exact sound.known ⟨none,before⟩
        · exact absurd (List.mem_singleton.mp new) same
      | some w => exact sound.known ⟨some w,here⟩
  case loose =>
    intro other away found known
    obtain ⟨rfl,_⟩ | ⟨same,before⟩ := origin known
    · exact absurd ⟨none,List.mem_append_right _ (List.mem_singleton_self _)⟩ away
    · exact sound.loose (fun here => away (was same here)) found before
  case mapped =>
    intro w fd other found among known
    obtain ⟨rfl,_⟩ | ⟨_,before⟩ := origin known
    · exact absurd ⟨some w,Worker.held_of_map among⟩ nowhere
    · exact sound.mapped among before
  case waiting =>
    intro other found among known isOpen
    obtain ⟨rfl,rfl⟩ | ⟨same,before⟩ := origin known
    · exact unregistered
    · refine sound.waiting (among.imp_left fun listed => ?_) before isOpen
      obtain before | new := List.mem_append.mp listed
      · exact before
      · exact absurd (List.mem_singleton.mp new) same

theorem World.Sound.erase (sound : s.Sound) (threw : Bool) :
    World.Sound {s with net := s.net.uninitAll threw s.backlog,backlog := []} := by
  have evolves := s.net.uninitAll_evolves threw s.backlog
  have fewer : ∀ place, (({s with net := s.net.uninitAll threw s.backlog,backlog := []} : World).holds place).Subperm
      (s.holds place) := by
    intro place
    cases place with
    | none => exact List.nil_subperm
    | some w => exact .refl _
  refine ⟨sound.net.uninitAll threw s.backlog,sound.exclusive.shrink fewer,fun ⟨place,here⟩ unknown => ?_,fun {id} away => ?_,
    fun among known => ?_,fun among known isOpen => ?_,sound.workers,sound.stray⟩
  · exact sound.known ⟨place,(fewer place).subset here⟩ (evolves.unknown unknown)
  · by_cases here : Held s.holds id
    · obtain ⟨place,here⟩ := here
      cases place with
      | none => exact s.net.uninitAll_gone threw here
      | some w => exact absurd ⟨some w,here⟩ away
    · exact (sound.loose here).evolves evolves
  · obtain ⟨role,before,follows⟩ := evolves.back known
    exact follows.mapped (sound.mapped among before)
  · obtain ⟨role,before,follows⟩ := evolves.back known
    refine follows.waiting isOpen (sound.waiting (.inr ?_) before)
    exact among.elim (fun listed => absurd listed List.not_mem_nil) fun inHand => inHand

theorem World.Sound.step (sound : s.Sound) {label : Label} {next : World} (stepped : s.step label = some next) : next.Sound := by
  unfold World.step at stepped
  cases label with
  | handoff id role =>
    simp only at stepped
    split at stepped
    · rename_i guard
      cases stepped
      exact sound.handoff (Option.isNone_iff_eq_none.mp guard.1) guard.2.1 guard.2.2
    · cases stepped
  | kick id =>
    cases stepped
    exact sound.call id _
  | complete id response =>
    cases stepped
    exact sound.call id _
  | uninitListener id threw =>
    simp only at stepped
    split at stepped
    · cases stepped
      exact sound.call id _
    · cases stepped
  | reload w =>
    cases stepped
    exact sound.flags true (s.workers w).exit
  | stop w =>
    cases stepped
    exact sound.flags (s.workers w).reload true
  | turn w answers =>
    simp only at stepped
    split at stepped
    · exact sound.turn stepped
    · cases stepped
  | join w threw =>
    simp only at stepped
    split at stepped
    · have quiet := (sound.workers w).quiet
      rw [quiet] at stepped
      cases stepped
      have same : ({s.workers w with waitHttp := []} : Worker) = s.workers w := by rw [← quiet]
      rw [same]
      have ok := sound.workers w
      exact sound.advance sound.net (.refl s.net) ok (.refl _) (fun _ among => among) (fun _ among => among) fun _ here => .inl here
    · cases stepped
  | erase threw =>
    simp only at stepped
    split at stepped
    · cases stepped
      exact sound.erase threw
    · cases stepped

theorem machine_keeps : machine.Keeps (fun _ _ => True) World.Sound := fun _ _ _ sound _ stepped => sound.step stepped

theorem reached_sound {threads workerConnections : Nat} {labels : List Label}
    (ran : machine.run (World.start threads workerConnections) labels = some s) : s.Sound :=
  machine_keeps.run_all (World.start_sound threads workerConnections) ran

end Workers

end SrtLiveServer.WorkerGroup
