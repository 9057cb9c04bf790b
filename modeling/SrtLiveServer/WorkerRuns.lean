import SrtLiveServer.WorkerCustody

/-! What the workers of a manager owe to the roles handed to them, over all runs: an event
finds its role, no role is lost or had twice, a stop closes every socket, and a kick is
served in the next round of housekeeping. -/
namespace SrtLiveServer.WorkerGroup
open CloseNotification (Call Op)
open Transition Custody

section Runs

variable {s : World} {w : Nat}

/-- A publisher without webhook, with its socket 5. -/
def arrival : Role where
  roleName := []
  httpUrl := []
  streamid := []
  peerIp := []
  peerPort := 0
  server := none
  httpPassed := true
  httpFuture := none
  deadline := 0
  state := .inited
  srt := some ⟨none,[]⟩
  kickRequested := false
  fd := 5
  eid := 0
  listener := false
  isWrite := false
  epollOutArmed := false
  statStartTime := 0
  inited := fun _ => rfl
  unarmed := fun _ => rfl

def calm : Answers where
  readable := []
  tick := []
  handling := ⟨[],true,false,true⟩
  waiting := fun _ => ⟨[],true,false,true⟩
  due := true
  idle := false
  broken := false
  now := 0
  added := true
  threw := false

/-- The first worker adopts the role, kicks included, and stands before its housekeeping. -/
def adoption : List Label :=
  .handoff 7 arrival::List.replicate 9 (.turn 0 calm) ++ .kick 7::List.replicate 4 (.turn 0 calm)

/-- A role stays known; its socket does not come back, and a kick stays requested. -/
def Net.Remembers (net next : Net) : Prop :=
  ∀ id role, net.roles id = some role → ∃ role', next.roles id = some role' ∧
    (role.srt = none → role'.srt = none) ∧ (role.kickRequested = true → role'.kickRequested = true)

theorem Net.Evolves.remembers {net next : Net} (evolves : net.Evolves next) : net.Remembers next := by
  intro id role known
  obtain ⟨role',found,follows⟩ := evolves.forward known
  exact ⟨role',found,follows.closes,follows.kick⟩

theorem Net.Remembers.trans {net middle next : Net} (first : net.Remembers middle) (second : middle.Remembers next) :
    net.Remembers next := by
  intro id role known
  obtain ⟨role',found,closes,kick⟩ := first id role known
  obtain ⟨role'',found',closes',kick'⟩ := second id role' found
  exact ⟨role'',found',fun closed => closes' (closes closed),fun kicked => kick' (kick kicked)⟩

theorem Net.remembers_update {net next : Net} {id : Nat} {role role' : Role} (known : net.roles id = some role)
    (updated : next.roles = Function.update net.roles id (some role')) (closes : role.srt = none → role'.srt = none)
    (kick : role.kickRequested = true → role'.kickRequested = true) : net.Remembers next := by
  intro other before found
  rw [updated]
  by_cases same : other = id
  · subst same
    cases known.symm.trans found
    exact ⟨role',Function.update_self ..,closes,kick⟩
  · exact ⟨before,(Function.update_of_ne same _ _).trans found,fun closed => closed,fun kicked => kicked⟩

theorem Net.addToEpoll_remembers (net : Net) (id eid : Nat) (added : Bool) : net.Remembers (net.addToEpoll id eid added) := by
  unfold Net.addToEpoll
  split
  · exact (Net.Evolves.refl net).remembers
  · rename_i role known
    split
    · exact (Net.Evolves.refl net).remembers
    · rename_i container
      let noted : Role := {role with eid := eid,unarmed := fun zero => absurd zero container}
      have closes : role.srt = none → noted.srt = none := fun closed => closed
      have kick : role.kickRequested = true → noted.kickRequested = true := fun kicked => kicked
      dsimp only
      split
      · exact Net.remembers_update known rfl closes kick
      · exact Net.remembers_update known rfl closes kick

theorem Net.updateEgressArming_remembers (net : Net) (id : Nat) (handling : Handling) :
    net.Remembers (net.updateEgressArming id handling) := by
  unfold Net.updateEgressArming
  split
  · exact (Net.Evolves.refl net).remembers
  · rename_i role known
    split
    · exact (Net.Evolves.refl net).remembers
    split
    · exact (Net.Evolves.refl net).remembers
    · rename_i registered
      let armed : Role := {role with epollOutArmed := handling.staged,unarmed := fun zero => absurd zero registered}
      have closes : role.srt = none → armed.srt = none := fun closed => closed
      have kick : role.kickRequested = true → armed.kickRequested = true := fun kicked => kicked
      exact Net.remembers_update known rfl closes kick

theorem Net.egress_remembers (net : Net) (id : Nat) (answers : Answers) : net.Remembers (net.egress id answers) := by
  have ticks := (net.calls_evolves id answers.tick).remembers
  have handles := (Net.calls_evolves (net.calls id answers.tick) id answers.handling.calls).remembers
  unfold Net.egress
  dsimp only
  split
  · exact ticks
  split
  · exact ticks
  split
  · exact ticks.trans (handles.trans (Net.updateEgressArming_remembers _ id _))
  · exact ticks.trans (handles.trans (Net.call_evolves _ id _).remembers)

theorem checkWaitHttp_remembers (answers : Answers) (net : Net) (waiting : List Nat) :
    net.Remembers (checkWaitHttp answers net waiting).1 ∧ (checkWaitHttp answers net waiting).2 ⊆ waiting := by
  induction waiting generalizing net with
  | nil => exact ⟨(Net.Evolves.refl net).remembers,List.Subset.refl _⟩
  | cons id rest ih =>
    rw [checkWaitHttp]
    split
    · obtain ⟨net',kept⟩ := ih (net.calls id (answers.waiting id).calls)
      exact ⟨(net.calls_evolves id _).remembers.trans net',List.cons_subset_cons id kept⟩
    · obtain ⟨net',kept⟩ := ih (net.uninit answers.threw id)
      exact ⟨(net.call_evolves id _).remembers.trans net',List.Subset.trans kept (List.subset_cons_self ..)⟩

theorem insertRole_subset (fd id : Nat) (roleMap : List (Nat × Nat)) : insertRole fd id roleMap ⊆ (fd,id)::roleMap := by
  induction roleMap with
  | nil => exact List.Subset.refl _
  | cons entry rest ih =>
    obtain ⟨key,role⟩ := entry
    rw [insertRole]
    split
    · exact List.Subset.refl _
    split
    · exact List.cons_subset_cons _ (List.subset_cons_self ..)
    · intro found among
      obtain rfl | later := List.mem_cons.mp among
      · exact List.mem_cons_of_mem _ List.mem_cons_self
      · obtain rfl | older := List.mem_cons.mp (ih later)
        · exact List.mem_cons_self
        · exact List.mem_cons_of_mem _ (List.mem_cons_of_mem _ older)

/-- What a turn of worker `w` can do to the rest, and where its roles come from. -/
structure World.Turned (s : World) (w : Nat) (next : World) : Prop where
  others : ∀ other, other ≠ w → next.workers other = s.workers other
  limit : next.workerConnections = s.workerConnections
  threads : next.threads = s.threads
  list : next.backlog ⊆ s.backlog
  mine : ∀ id ∈ (next.workers w).held, id ∈ (s.workers w).held ∨ id ∈ s.backlog
  net : s.net.Remembers next.net

theorem World.Turned.of {net : Net} {backlog stray : List Nat} {worker : Worker} (remembers : s.net.Remembers net)
    (list : backlog ⊆ s.backlog) (mine : ∀ id ∈ worker.held, id ∈ (s.workers w).held ∨ id ∈ s.backlog) :
    s.Turned w ({s with net := net,backlog := backlog,stray := stray}.setWorker w worker) where
  others := fun _ away => World.setWorker_other _ worker away
  limit := rfl
  threads := rfl
  list := list
  mine := by
    rw [World.setWorker_self]
    exact mine
  net := remembers

theorem World.Turned.goto {net : Net} (remembers : s.net.Remembers net) {stray : List Nat} {phase : Phase}
    (hands : phase.hand ⊆ (s.workers w).phase.hand) :
    s.Turned w ({s with net := net,stray := stray}.setWorker w ((s.workers w).goto phase)) := by
  refine World.Turned.of remembers (List.Subset.refl _) fun id here => .inl ?_
  simp only [Worker.held,Worker.goto,List.mem_append] at here ⊢
  exact here.imp_left fun here => here.imp_left fun inHand => hands inHand

theorem World.Sound.checkInvalid_turned (sound : s.Sound) {fd id : Nat} {rest : List (Nat × Nat)}
    (phase : (s.workers w).phase = .checkInvalid ((fd,id)::rest)) (answers : Answers) :
    s.Turned w (s.checkInvalid w fd id rest answers) := by
  have sees := (s.net.call_evolves id ⟨.getState answers.idle answers.broken,answers.threw⟩).remembers
  have fits := (sound.workers w).fits
  rw [phase] at fits
  have entry : id ∈ (s.workers w).held := Worker.held_of_map (fits.subset List.mem_cons_self)
  unfold World.checkInvalid
  dsimp only
  split
  · refine World.Turned.of sees (List.Subset.refl _) fun other here => .inl ?_
    simp only [Worker.held,Worker.goto,Phase.hand,List.nil_append,List.mem_append] at here ⊢
    exact here.imp_left fun mapped => .inr (((eraseRole_sublist fd _).map Prod.snd).subset mapped)
  split
  · exact World.Turned.goto sees (List.nil_subset _)
  · refine World.Turned.of (sees.trans (Net.call_evolves _ id _).remembers) (List.Subset.refl _) fun other here => .inl ?_
    simp only [Worker.held,Worker.goto,Phase.hand,List.nil_append,List.mem_append] at here
    obtain mapped | waits := here
    · exact List.mem_append_left _ (List.mem_append_right _ (((eraseRole_sublist fd _).map Prod.snd).subset mapped))
    · split at waits
      · obtain waits | new := List.mem_append.mp waits
        · exact List.mem_append_right _ waits
        · rw [List.mem_singleton.mp new]
          exact entry
      · exact List.mem_append_right _ waits

theorem World.adopt_turned {id : Nat} (phase : (s.workers w).phase = .adopting id) (answers : Answers) :
    s.Turned w (s.adopt w id answers) := by
  have same : s.net.Remembers s.net := (Net.Evolves.refl s.net).remembers
  have container := s.net.addToEpoll_remembers id (eidOf w) answers.added
  unfold World.adopt
  dsimp only
  split
  · exact World.Turned.goto same (List.nil_subset _)
  split
  · exact World.Turned.goto (s.net.call_evolves id _).remembers (List.nil_subset _)
  split
  · refine World.Turned.of container (List.Subset.refl _) fun other here => .inl ?_
    simp only [Worker.held,Worker.goto,Phase.hand,List.nil_append] at here
    simp only [Worker.held,phase,Phase.hand,List.append_assoc]
    obtain mapped | waits := List.mem_append.mp here
    · obtain ⟨entry,among,rfl⟩ := List.mem_map.mp mapped
      obtain rfl | older := List.mem_cons.mp (insertRole_subset _ _ _ among)
      · exact List.mem_append_left _ (List.mem_singleton_self _)
      · exact List.mem_append_right _ (List.mem_append_left _ (List.mem_map_of_mem (f := Prod.snd) older))
    · exact List.mem_append_right _ (List.mem_append_right _ waits)
  · exact World.Turned.goto (container.trans (Net.call_evolves _ id _).remembers) (List.nil_subset _)

theorem World.Sound.turned (sound : s.Sound) {answers : Answers} {next : World} (turned : s.turn w answers = some next) :
    s.Turned w next := by
  have same : s.net.Remembers s.net := (Net.Evolves.refl s.net).remembers
  unfold World.turn at turned
  cases phase : (s.workers w).phase with
  | ended =>
    simp only [phase] at turned
    cases turned
  | loop =>
    simp only [phase] at turned
    split at turned
    · cases turned
      refine World.Turned.of (s.net.uninitAll_evolves _ _).remembers (List.Subset.refl _) fun id here => .inl ?_
      simp only [Worker.held,Phase.hand,List.map_nil,List.append_nil,List.nil_append] at here
      exact List.mem_append_right _ here
    split at turned
    · cases turned
      refine World.Turned.of same (List.Subset.refl _) fun id here => .inl ?_
      simpa only [Worker.held,phase] using here
    split at turned
    · cases turned
      exact World.Turned.goto same (List.nil_subset _)
    · cases turned
  | reading socks =>
    cases socks with
    | nil =>
      simp only [phase] at turned
      cases turned
      exact World.Turned.goto same (List.nil_subset _)
    | cons fd rest =>
      simp only [phase] at turned
      split at turned
      · cases turned
        exact World.Turned.goto same (List.nil_subset _)
      · cases turned
        exact World.Turned.goto (s.net.handle_evolves _ _ _).remembers (List.nil_subset _)
  | egress todo =>
    cases todo with
    | nil =>
      simp only [phase] at turned
      cases turned
      refine World.Turned.goto same ?_
      split <;> exact List.nil_subset _
    | cons entry rest =>
      simp only [phase] at turned
      cases turned
      exact World.Turned.goto (s.net.egress_remembers _ _) (List.nil_subset _)
  | idle =>
    simp only [phase] at turned
    cases turned
    obtain ⟨remembers,kept⟩ := checkWaitHttp_remembers answers s.net (s.workers w).waitHttp
    refine World.Turned.of remembers (List.Subset.refl _) fun id here => .inl ?_
    simp only [Worker.held,Phase.hand,List.nil_append,List.mem_append] at here ⊢
    exact here.imp (fun mapped => .inr mapped) fun waits => kept waits
  | checkInvalid todo =>
    cases todo with
    | nil =>
      simp only [phase] at turned
      cases turned
      exact World.Turned.goto same (List.nil_subset _)
    | cons entry rest =>
      obtain ⟨fd,id⟩ := entry
      simp only [phase] at turned
      cases turned
      exact sound.checkInvalid_turned phase answers
  | reap =>
    simp only [phase] at turned
    cases turned
    refine World.Turned.of same List.filter_sublist.subset fun id here => ?_
    simp only [Worker.held,Worker.goto,Phase.hand,List.append_assoc] at here
    obtain stale | here := List.mem_append.mp here
    · exact .inr (List.filter_sublist.subset stale)
    · exact .inl (by simpa only [Worker.held,List.append_assoc] using List.mem_append_right _ here)
  | reaping stale =>
    cases stale with
    | nil =>
      simp only [phase] at turned
      cases turned
      exact World.Turned.goto same (List.nil_subset _)
    | cons id rest =>
      simp only [phase] at turned
      cases turned
      refine World.Turned.goto (s.net.call_evolves id _).remembers ?_
      rw [phase]
      exact List.subset_cons_self ..
  | checkNew =>
    simp only [phase] at turned
    split at turned
    · cases turned
      exact World.Turned.goto same (List.nil_subset _)
    · split at turned
      · cases turned
        exact World.Turned.goto same (List.nil_subset _)
      · rename_i id rest listed
        cases turned
        refine World.Turned.of same ?_ fun other here => ?_
        · rw [listed]
          exact List.subset_cons_self ..
        · simp only [Worker.held,Worker.goto,Phase.hand,List.append_assoc] at here
          obtain popped | here := List.mem_append.mp here
          · rw [listed,List.mem_singleton.mp popped]
            exact .inr List.mem_cons_self
          · exact .inl (by simpa only [Worker.held,List.append_assoc] using List.mem_append_right _ here)
  | adopting id =>
    simp only [phase] at turned
    cases turned
    exact World.adopt_turned phase answers

theorem World.Sound.step_frame (sound : s.Sound) {label : Label} {next : World} (stepped : s.step label = some next) :
    next.workerConnections = s.workerConnections ∧ next.threads = s.threads ∧
      ((∃ answers, label = .turn w answers ∧ w < s.threads) ∨
        (next.workers w).roleMap = (s.workers w).roleMap ∧ (next.workers w).phase = (s.workers w).phase) := by
  have aside (other : Nat) (worker : Worker) (map : worker.roleMap = (s.workers other).roleMap)
      (phase : worker.phase = (s.workers other).phase) (net : Net) :
      (({s with net := net}.setWorker other worker).workers w).roleMap = (s.workers w).roleMap ∧
        (({s with net := net}.setWorker other worker).workers w).phase = (s.workers w).phase := by
    by_cases same : w = other
    · subst same
      rw [World.setWorker_self]
      exact ⟨map,phase⟩
    · rw [World.setWorker_other _ worker same]
      exact ⟨rfl,rfl⟩
  unfold World.step at stepped
  cases label with
  | handoff id role =>
    simp only at stepped
    split at stepped
    · cases stepped
      exact ⟨rfl,rfl,.inr ⟨rfl,rfl⟩⟩
    · cases stepped
  | kick id =>
    cases stepped
    exact ⟨rfl,rfl,.inr ⟨rfl,rfl⟩⟩
  | complete id response =>
    cases stepped
    exact ⟨rfl,rfl,.inr ⟨rfl,rfl⟩⟩
  | uninitListener id threw =>
    simp only at stepped
    split at stepped
    · cases stepped
      exact ⟨rfl,rfl,.inr ⟨rfl,rfl⟩⟩
    · cases stepped
  | reload other =>
    cases stepped
    exact ⟨rfl,rfl,.inr (aside other {s.workers other with reload := true} rfl rfl s.net)⟩
  | stop other =>
    cases stepped
    exact ⟨rfl,rfl,.inr (aside other {s.workers other with exit := true} rfl rfl s.net)⟩
  | turn other answers =>
    simp only at stepped
    split at stepped
    · rename_i started
      have turned := World.Sound.turned sound stepped
      by_cases same : w = other
      · subst same
        exact ⟨turned.limit,turned.threads,.inl ⟨answers,rfl,started⟩⟩
      · rw [turned.others w same]
        exact ⟨turned.limit,turned.threads,.inr ⟨rfl,rfl⟩⟩
    · cases stepped
  | join other threw =>
    simp only at stepped
    split at stepped
    · cases stepped
      exact ⟨rfl,rfl,.inr (aside other {s.workers other with waitHttp := []} rfl rfl _)⟩
    · cases stepped
  | erase threw =>
    simp only at stepped
    split at stepped
    · cases stepped
      exact ⟨rfl,rfl,.inr ⟨rfl,rfl⟩⟩
    · cases stepped

/-- The manager has these workers, and no other has begun. -/
structure World.Staffed (threads workerConnections : Nat) (s : World) : Prop where
  limit : s.workerConnections = workerConnections
  started : s.threads = threads
  unstarted : ∀ w, threads ≤ w → (s.workers w).roleMap = [] ∧ (s.workers w).phase = .loop

theorem reached_staffed {threads workerConnections : Nat} {labels : List Label}
    (ran : machine.run (World.start threads workerConnections) labels = some s) : s.Staffed threads workerConnections := by
  have keeps : machine.Keeps (fun _ _ => True) fun s => s.Sound ∧ s.Staffed threads workerConnections := by
    intro s label next ⟨sound,staffed⟩ _ stepped
    obtain ⟨limit,started,_⟩ := sound.step_frame (w := 0) stepped
    refine ⟨sound.step stepped,limit.trans staffed.limit,started.trans staffed.started,fun w beyond => ?_⟩
    obtain ⟨_,_,⟨_,_,within⟩ | ⟨map,phase⟩⟩ := sound.step_frame (w := w) stepped
    · rw [staffed.started] at within
      omega
    · rw [map,phase]
      exact staffed.unstarted w beyond
  exact (keeps.run_all ⟨World.start_sound threads workerConnections,rfl,rfl,fun _ _ => ⟨rfl,rfl⟩⟩ ran).2

/-- A role that was handed over is in one place, and once; where it is in none, its socket
is closed. No role ever waits for a webhook, and no map outgrows its limit. -/
theorem handed_over_roles_are_kept {threads workerConnections : Nat} {labels : List Label}
    (ran : machine.run (World.start threads workerConnections) labels = some s) :
    Exclusive s.holds ∧ (∀ id role, s.net.roles id = some role → role.srt ≠ none → Held s.holds id) ∧
      (∀ w, (s.workers w).waitHttp = [] ∧ (s.workers w).roleMap.length ≤ workerConnections) := by
  have sound := reached_sound ran
  have limit := (reached_staffed ran).limit
  refine ⟨sound.exclusive,fun id role known isOpen => ?_,fun w => ⟨(sound.workers w).quiet,limit ▸ (sound.workers w).room⟩⟩
  by_contra away
  exact isOpen (sound.loose away role known)

theorem handed_over_roles_are_kept_adopted : ∃ s, machine.run (World.start 2 8) adoption = some s ∧
    Held s.holds 7 ∧ (s.workers 0).roleMap.length ≤ 8 :=
  have kept := handed_over_roles_are_kept (show machine.run (World.start 2 8) adoption = some _ from rfl)
  ⟨_,rfl,kept.2.1 7 _ rfl (Option.some_ne_none _),(kept.2.2 0).2⟩

/-- However the roles came and went, no socket is closed twice; and once the workers have
ended and the list is empty, each socket that was handed over has been closed. -/
theorem stopped_workers_closed_every_socket {threads workerConnections : Nat} {labels : List Label}
    (ran : machine.run (World.start threads workerConnections) labels = some s) :
    s.net.closed.Nodup ∧ s.net.closed ⊆ s.net.opened ∧
      ((∀ w < threads, (s.workers w).phase = .ended) → s.backlog = [] → s.net.closed.Perm s.net.opened ∧ s.net.subscribed = []) := by
  have sound := reached_sound ran
  have staffed := reached_staffed ran
  refine ⟨sound.net.closed,sound.net.known,fun ended emptied => ?_⟩
  have nowhere : ∀ id, ¬ Held s.holds id := by
    rintro id ⟨place,here⟩
    cases place with
    | none =>
      rw [World.holds,emptied] at here
      cases here
    | some w =>
      have ok := sound.workers w
      have fits := ok.fits
      by_cases within : w < threads
      · rw [ended w within] at fits
        have map : (s.workers w).roleMap = [] := fits
        simp [World.holds,Worker.held,ended w within,map,ok.quiet,Phase.hand] at here
      · obtain ⟨map,phase⟩ := staffed.unstarted w (Nat.le_of_not_lt within)
        simp [World.holds,Worker.held,map,phase,ok.quiet,Phase.hand] at here
  have none_open : ∀ {id role}, s.net.roles id = some role → role.srt = none := fun known => sound.loose (nowhere _) _ known
  constructor
  · refine (List.perm_ext_iff_of_nodup sound.net.closed sound.net.opened).mpr fun fd => ⟨sound.net.known fd,fun among => ?_⟩
    obtain closed | ⟨_,role,known,_,isOpen⟩ := sound.net.accounted fd among
    · exact closed
    · exact absurd (none_open known) isOpen
  · refine List.eq_nil_iff_forall_not_mem.mpr fun sub among => ?_
    obtain ⟨_,role,known,isOpen,_⟩ := (sound.net.subscribed sub).mp among
    exact isOpen (none_open known)

/-- A stop while the role is still on the list. -/
def shutdown : List Label := [.handoff 7 arrival,.stop 0,.turn 0 calm,.join 0 false,.erase false]

theorem stopped_workers_closed_every_socket_shutdown : ∃ s, machine.run (World.start 1 8) shutdown = some s ∧
    s.net.closed.Perm [5] ∧ s.net.subscribed = [] :=
  have closed := stopped_workers_closed_every_socket (show machine.run (World.start 1 8) shutdown = some _ from rfl)
  ⟨_,rfl,closed.2.2 (fun w within => by cases Nat.lt_one_iff.mp within; rfl) rfl⟩

theorem World.Sound.step_remembers (sound : s.Sound) {label : Label} {next : World} (stepped : s.step label = some next) :
    s.net.Remembers next.net := by
  have calls (id : Nat) (call : Call) : s.net.Remembers (s.net.call id call) := (s.net.call_evolves id call).remembers
  unfold World.step at stepped
  cases label with
  | handoff id role =>
    simp only at stepped
    split at stepped
    · rename_i guard
      cases stepped
      intro other found known
      have apart : other ≠ id := by
        rintro rfl
        rw [known] at guard
        cases guard.1
      exact ⟨found,(Net.set_other _ _ apart).trans known,fun closed => closed,fun kicked => kicked⟩
    · cases stepped
  | kick id =>
    cases stepped
    exact calls id _
  | complete id response =>
    cases stepped
    exact calls id _
  | uninitListener id threw =>
    simp only at stepped
    split at stepped
    · cases stepped
      exact calls id _
    · cases stepped
  | reload other =>
    cases stepped
    exact (Net.Evolves.refl s.net).remembers
  | stop other =>
    cases stepped
    exact (Net.Evolves.refl s.net).remembers
  | turn other answers =>
    simp only at stepped
    split at stepped
    · exact (sound.turned stepped).net
    · cases stepped
  | join other threw =>
    simp only at stepped
    split at stepped
    · cases stepped
      exact (s.net.uninitAll_evolves _ _).remembers
    · cases stepped
  | erase threw =>
    simp only at stepped
    split at stepped
    · cases stepped
      exact (s.net.uninitAll_evolves _ _).remembers
    · cases stepped

theorem World.Sound.step_held (sound : s.Sound) {label : Label} {next : World} (stepped : s.step label = some next) {id : Nat}
    (known : s.net.roles id ≠ none) (here : Held next.holds id) : Held s.holds id := by
  unfold World.step at stepped
  have flags (other : Nat) (worker : Worker) (held : worker.held = (s.workers other).held) :
      Held (s.setWorker other worker).holds id → Held s.holds id := by
    rintro ⟨place,here⟩
    refine ⟨place,?_⟩
    cases place with
    | none => exact here
    | some w =>
      by_cases same : w = other
      · subst same
        rw [World.holds,World.setWorker_self,held] at here
        exact here
      · rw [World.holds,World.setWorker_other _ worker same] at here
        exact here
  cases label with
  | handoff other role =>
    simp only at stepped
    split at stepped
    · rename_i guard
      cases stepped
      obtain ⟨place,here⟩ := here
      refine ⟨place,?_⟩
      cases place with
      | none =>
        obtain before | new := List.mem_append.mp here
        · exact before
        · rw [List.mem_singleton.mp new] at known
          exact absurd (Option.isNone_iff_eq_none.mp guard.1) known
      | some w => exact here
    · cases stepped
  | kick other =>
    cases stepped
    exact here
  | complete other response =>
    cases stepped
    exact here
  | uninitListener other threw =>
    simp only at stepped
    split at stepped
    · cases stepped
      exact here
    · cases stepped
  | reload other =>
    cases stepped
    exact flags other {s.workers other with reload := true} rfl here
  | stop other =>
    cases stepped
    exact flags other {s.workers other with exit := true} rfl here
  | turn other answers =>
    simp only at stepped
    split at stepped
    · have turned := sound.turned stepped
      obtain ⟨place,here⟩ := here
      cases place with
      | none => exact ⟨none,turned.list here⟩
      | some w =>
        by_cases same : w = other
        · subst same
          obtain mine | listed := turned.mine id here
          · exact ⟨some w,mine⟩
          · exact ⟨none,listed⟩
        · rw [World.holds,turned.others w same] at here
          exact ⟨some w,here⟩
    · cases stepped
  | join other threw =>
    simp only at stepped
    split at stepped
    · cases stepped
      refine flags other {s.workers other with waitHttp := []} ?_ here
      simp only [Worker.held,(sound.workers other).quiet]
    · cases stepped
  | erase threw =>
    simp only at stepped
    split at stepped
    · cases stepped
      obtain ⟨place,here⟩ := here
      cases place with
      | none => cases here
      | some w => exact ⟨some w,here⟩
    · cases stepped

/-- A kick was requested, and the housekeeping of the worker that has the role has still
to come to it. -/
def World.Kicked (s : World) (w fd id : Nat) : Prop :=
  (fd,id) ∈ (s.workers w).roleMap ∧ (∃ role, s.net.roles id = some role ∧ role.kickRequested = true) ∧
    ((s.workers w).phase = .idle ∨ ∃ todo, (s.workers w).phase = .checkInvalid todo ∧ (fd,id) ∈ todo)

/-- The role is in no place any more, and hence without a socket. -/
def World.Left (s : World) (id : Nat) : Prop := s.net.roles id ≠ none ∧ ¬ Held s.holds id

theorem Role.getState_kicked {role : Role} (kicked : role.kickRequested = true) (idle broken threw : Bool) :
    (role.call ⟨.getState idle broken,threw⟩).state ≠ .inited := by
  show (role.toRole.getState threw idle broken).1.state ≠ .inited
  unfold CloseNotification.Role.getState
  rw [if_pos kicked]
  split
  · rename_i invalid
    rw [invalid]
    decide
  · intro inited
    have state : (role.toRole.markInvalid threw).1.state = .invalid := by
      unfold CloseNotification.Role.markInvalid CloseNotification.Role.invalidSrt
      split
      · rfl
      · unfold CloseNotification.Role.onClose
        split
        · rfl
        · dsimp only
          split <;> rfl
    rw [state] at inited
    cases inited

theorem World.Sound.left_step (sound : s.Sound) {label : Label} {next : World} (stepped : s.step label = some next) {id : Nat}
    (left : s.Left id) : next.Left id := by
  obtain ⟨role,known⟩ := Option.ne_none_iff_exists'.mp left.1
  obtain ⟨role',found,_⟩ := sound.step_remembers stepped id role known
  exact ⟨Option.ne_none_iff_exists'.mpr ⟨role',found⟩,fun here => left.2 (sound.step_held stepped left.1 here)⟩

theorem World.Sound.kicked_checked (sound : s.Sound) {fd id : Nat} {rest : List (Nat × Nat)}
    (phase : (s.workers w).phase = .checkInvalid ((fd,id)::rest)) {role : Role} (known : s.net.roles id = some role)
    (kicked : role.kickRequested = true) (answers : Answers) : (s.checkInvalid w fd id rest answers).Left id := by
  have ok := sound.workers w
  have fits := ok.fits
  rw [phase] at fits
  have entry : (fd,id) ∈ (s.workers w).roleMap := fits.subset List.mem_cons_self
  have mine : id ∈ s.holds (some w) := Worker.held_of_map entry
  have seen := Net.call_self known ⟨.getState answers.idle answers.broken,answers.threw⟩
  have ended := Role.getState_kicked kicked answers.idle answers.broken answers.threw
  have noRequest := Net.uninit_request seen ended answers.threw
  unfold World.checkInvalid
  dsimp only
  rw [seen]
  dsimp only
  rw [if_neg ended]
  simp only [noRequest,Bool.false_eq_true,if_false]
  refine ⟨Option.ne_none_iff_exists'.mpr ⟨_,Net.call_self seen ⟨.uninit,answers.threw⟩⟩,?_⟩
  rintro ⟨place,here⟩
  cases place with
  | none => exact absurd (sound.exclusive.unique (show id ∈ s.holds none from here) mine) (Option.some_ne_none w).symm
  | some other =>
    by_cases same : other = w
    · subst same
      rw [World.holds,World.setWorker_self] at here
      simp only [Worker.held,Worker.goto,Phase.hand,ok.quiet,List.nil_append,List.append_nil] at here
      -- another entry of the map would be the role's as well
      obtain ⟨⟨key,_⟩,among,rfl⟩ := List.mem_map.mp here
      obtain ⟨still,apart⟩ := List.mem_filter.mp among
      have fd' := (sound.mapped still known).1
      rw [(sound.mapped entry known).1] at fd'
      simp [fd'] at apart
    · rw [World.holds,World.setWorker_other _ _ same] at here
      exact same (Option.some.inj (sound.exclusive.unique (show id ∈ s.holds (some other) from here) mine))

theorem World.Sound.kicked_step (sound : s.Sound) {label : Label} {next : World} (stepped : s.step label = some next)
    {fd id : Nat} (kicked : s.Kicked w fd id) : next.Kicked w fd id ∨ next.Left id := by
  obtain ⟨entry,⟨role,known,requested⟩,position⟩ := kicked
  obtain ⟨role',found,_,kick⟩ := sound.step_remembers stepped id role known
  have still : ∃ role, next.net.roles id = some role ∧ role.kickRequested = true := ⟨role',found,kick requested⟩
  obtain ⟨_,_,⟨answers,rfl,started⟩ | ⟨map,phase⟩⟩ := sound.step_frame (w := w) stepped
  · simp only [World.step,if_pos started] at stepped
    have ok := sound.workers w
    obtain phase | ⟨todo,phase,ahead⟩ := position
    · left
      simp only [World.turn,phase,ok.quiet,checkWaitHttp] at stepped
      cases stepped
      refine ⟨?_,still,.inr ⟨(s.workers w).roleMap,?_,entry⟩⟩
      · rw [World.setWorker_self]
        exact entry
      · rw [World.setWorker_self]
    · cases todo with
      | nil => cases ahead
      | cons first rest =>
        obtain ⟨fd',id'⟩ := first
        have fits := ok.fits
        rw [phase] at fits
        have here : (fd',id') ∈ (s.workers w).roleMap := fits.subset List.mem_cons_self
        simp only [World.turn,phase] at stepped
        cases stepped
        by_cases same : fd = fd'
        · subst same
          cases List.inj_on_of_nodup_map ok.keys entry here rfl
          exact .inr (sound.kicked_checked phase known requested answers)
        · left
          have later : (fd,id) ∈ rest := (List.mem_cons.mp ahead).resolve_left fun head => same (congrArg Prod.fst head)
          have kept : (fd,id) ∈ eraseRole fd' (s.workers w).roleMap := List.mem_filter.mpr ⟨entry,by simpa using same⟩
          have shape : ((s.checkInvalid w fd' id' rest answers).workers w).phase = .checkInvalid rest ∧
              (fd,id) ∈ ((s.checkInvalid w fd' id' rest answers).workers w).roleMap := by
            unfold World.checkInvalid
            dsimp only
            split
            · rw [World.setWorker_self]
              exact ⟨rfl,kept⟩
            · split
              · rw [World.setWorker_self]
                exact ⟨rfl,entry⟩
              · rw [World.setWorker_self]
                exact ⟨rfl,kept⟩
          exact ⟨shape.2,still,.inr ⟨rest,shape.1,later⟩⟩
  · left
    refine ⟨map ▸ entry,still,?_⟩
    rw [phase]
    exact position

/-- A kick is served by the next round of housekeeping of the worker that has the role,
whatever the other threads do meanwhile: when the round has gone over the role map, the
role is in no place and its socket is closed. -/
theorem kick_is_served {threads workerConnections : Nat} {labels later : List Label} {final : World} {fd id : Nat}
    (ran : machine.run (World.start threads workerConnections) labels = some s) (entry : (fd,id) ∈ (s.workers w).roleMap)
    (kicked : ∃ role, s.net.roles id = some role ∧ role.kickRequested = true) (begun : (s.workers w).phase = .idle)
    (ran' : machine.run s later = some final) (passed : (final.workers w).phase ≠ .idle)
    (checked : ∀ todo, (final.workers w).phase ≠ .checkInvalid todo) :
    ¬ Held final.holds id ∧ ∃ role, final.net.roles id = some role ∧ role.srt = none := by
  have keeps : machine.Keeps (fun _ _ => True) fun s => s.Sound ∧ (s.Kicked w fd id ∨ s.Left id) := by
    intro s label next ⟨sound,either⟩ _ stepped
    refine ⟨sound.step stepped,?_⟩
    obtain kicked | left := either
    · exact sound.kicked_step stepped kicked
    · exact .inr (sound.left_step stepped left)
  obtain ⟨sound,still | left⟩ := keeps.run_all ⟨reached_sound ran,.inl ⟨entry,kicked,.inl begun⟩⟩ ran'
  · obtain ⟨_,_,idle | ⟨todo,checking,_⟩⟩ := still
    · exact absurd idle passed
    · exact absurd checking (checked todo)
  · obtain ⟨role,known⟩ := Option.ne_none_iff_exists'.mp left.1
    exact ⟨left.2,role,known,sound.loose left.2 role known⟩

theorem kick_is_served_adopted : ∃ s final, machine.run (World.start 2 8) adoption = some s ∧
    machine.run s (List.replicate 3 (.turn 0 calm)) = some final ∧ ¬ Held final.holds 7 :=
  ⟨_,_,rfl,rfl,(kick_is_served (w := 0) (show machine.run (World.start 2 8) adoption = some _ from rfl)
    (show (5,7) ∈ _ from List.mem_singleton_self _) ⟨_,rfl,rfl⟩ rfl
    (show machine.run _ (List.replicate 3 (.turn 0 calm)) = some _ from rfl) (by nofun) (by nofun)).1⟩

end Runs

end SrtLiveServer.WorkerGroup
