import SrtLiveServer.WorkerDraining

/-! What a reload owes to the sessions of the manager it retires. Workers let go of none, a
manager is deleted once and with every socket closed; but one whose group has no thread is
left behind for good. -/
namespace SrtLiveServer.ServerReload
open Transition WorkerGroup

section Managers

variable {m next : Manager}

/-- A manager has the workers that `start` made; those that it no longer lists have ended. -/
structure Manager.Sound (m : Manager) : Prop where
  reached : ∃ threads workerConnections labels, machine.run (World.start threads workerConnections) labels = some m.world
  drained : Drained m.world
  group : ∀ w < m.world.threads, w ∉ m.group → (m.world.workers w).phase = .ended

theorem Manager.Sound.world (sound : m.Sound) : m.world.Sound := by
  obtain ⟨_,_,_,ran⟩ := sound.reached
  exact reached_sound ran

theorem start_sound (number threads workerConnections : Nat) : (Manager.start number threads workerConnections).Sound where
  reached := ⟨_,workerConnections,[],rfl⟩
  drained := start_drained _ workerConnections
  group := fun _ within out => absurd (List.mem_range.mpr within) out

theorem step_phase {s after : World} (sound : s.Sound) {label : WorkerGroup.Label} (stepped : s.step label = some after) :
    after.threads = s.threads ∧ ∀ w, (s.workers w).phase = .ended → (after.workers w).phase = .ended := by
  refine ⟨(sound.step_frame (w := 0) stepped).2.1,fun w exited => ?_⟩
  obtain ⟨_,_,⟨answers,rfl,within⟩ | ⟨_,phase⟩⟩ := sound.step_frame (w := w) stepped
  · unfold World.step World.turn at stepped
    simp only [if_pos within,exited] at stepped
    cases stepped
  · exact phase.trans exited

theorem Manager.Sound.stepped (sound : m.Sound) {label : WorkerGroup.Label} (goes : ∀ w, label ≠ .stop w)
    (stepped : m.step label = some next) : next.Sound ∧ m.world.step label = some next.world ∧ next.group = m.group ∧
      next.single = m.single ∧ next.number = m.number := by
  obtain ⟨world,moved,rfl⟩ := Option.map_eq_some_iff.mp stepped
  obtain ⟨threads,workerConnections,labels,ran⟩ := sound.reached
  obtain ⟨same,ended⟩ := step_phase sound.world moved
  refine ⟨⟨⟨threads,workerConnections,labels ++ [label],Machine.run_append ran (Machine.run_single moved)⟩,
    sound.drained.step sound.world moved goes,fun w within out => ?_⟩,moved,rfl,rfl,rfl⟩
  rw [same] at within
  exact ended w (sound.group w within out)

theorem free_goes {label : WorkerGroup.Label} (isFree : free label = true) : ∀ w, label ≠ .stop w := by
  rintro w rfl
  cases isFree

/-- The labels of `CSLSManager::reload`. -/
def isReload : WorkerGroup.Label → Prop
  | .uninitListener _ _ | .reload _ => True
  | _ => False

theorem reload_step {s after : World} {label : WorkerGroup.Label} (isReload : isReload label) (stepped : s.step label = some after) :
    ∀ w, (after.workers w).exit = (s.workers w).exit := by
  unfold World.step at stepped
  cases label with
  | uninitListener id threw =>
    simp only at stepped
    split at stepped
    · cases stepped
      exact fun w => rfl
    · cases stepped
  | reload w =>
    cases stepped
    intro other
    by_cases same : other = w
    · subst same
      rw [World.setWorker_self]
    · rw [World.setWorker_other _ _ same]
  | _ => exact isReload.elim

theorem reload_run {labels : List WorkerGroup.Label} (all : ∀ label ∈ labels, isReload label) {world : World} (sound : m.Sound)
    (ran : machine.run m.world labels = some world) :
    Manager.Sound {m with world := world} ∧ ∀ w, (world.workers w).exit = (m.world.workers w).exit := by
  induction labels generalizing m with
  | nil =>
    cases Option.some.inj ran
    exact ⟨sound,fun w => rfl⟩
  | cons label rest ih =>
    obtain ⟨middle,stepped,ran⟩ := Machine.run_cons ran
    have here := all label List.mem_cons_self
    have stepped' : m.step label = some {m with world := middle} := Option.map_eq_some_iff.mpr ⟨middle,stepped,rfl⟩
    obtain ⟨kept,_⟩ := sound.stepped (by rintro w rfl; exact here.elim) stepped'
    obtain ⟨last,same⟩ := ih (m := {m with world := middle}) (fun other member => all other (List.mem_cons_of_mem label member)) kept ran
    exact ⟨last,fun w => (same w).trans (reload_step here stepped w)⟩

theorem reload_labels (m : Manager) (servers : List (Nat × Bool)) :
    ∀ label ∈ servers.map (fun server => WorkerGroup.Label.uninitListener server.1 server.2) ++ m.group.map .reload,
      isReload label := by
  intro label member
  obtain listed | told := List.mem_append.mp member
  · obtain ⟨server,_,rfl⟩ := List.mem_map.mp listed
    exact trivial
  · obtain ⟨w,_,rfl⟩ := List.mem_map.mp told
    exact trivial

theorem Manager.Sound.reload (sound : m.Sound) {servers : List (Nat × Bool)} (retired : m.reload servers = some next) :
    next.Sound ∧ (∀ w, (next.world.workers w).exit = (m.world.workers w).exit) ∧ next.group = m.group ∧ next.number = m.number := by
  obtain ⟨world,ran,rfl⟩ := Option.map_eq_some_iff.mp retired
  obtain ⟨kept,exit⟩ := reload_run (reload_labels m servers) sound ran
  exact ⟨kept,exit,rfl,rfl⟩

/-- Sockets are closed of listeners only; the other roles, and who has them, stay as they are. -/
structure Shuts (before after : World) : Prop where
  roleMap : ∀ w, (after.workers w).roleMap = (before.workers w).roleMap
  sessions : ∀ id role, before.net.roles id = some role → role.listener = false → after.net.roles id = some role
  listeners : ∀ id role, after.net.roles id = some role →
    ∃ old, before.net.roles id = some old ∧ old.listener = role.listener ∧ old.fd = role.fd
  closed : ∃ shut, after.net.closed = before.net.closed ++ shut ∧
    ∀ fd ∈ shut, ∃ id role, before.net.roles id = some role ∧ role.listener = true ∧ role.fd = fd

theorem Shuts.refl (world : World) : Shuts world world where
  roleMap := fun _ => rfl
  sessions := fun _ _ known _ => known
  listeners := fun _ role known => ⟨role,known,rfl,rfl⟩
  closed := ⟨[],(List.append_nil _).symm,fun _ member => absurd member List.not_mem_nil⟩

theorem Shuts.trans {before middle after : World} (first : Shuts before middle) (second : Shuts middle after) : Shuts before after where
  roleMap := fun w => (second.roleMap w).trans (first.roleMap w)
  sessions := fun id role known session => second.sessions id role (first.sessions id role known session) session
  listeners := by
    intro id role known
    obtain ⟨old,found,same,fd⟩ := second.listeners id role known
    obtain ⟨older,there,same',fd'⟩ := first.listeners id old found
    exact ⟨older,there,same'.trans same,fd'.trans fd⟩
  closed := by
    obtain ⟨shut,closed,whose⟩ := first.closed
    obtain ⟨shut',closed',whose'⟩ := second.closed
    refine ⟨shut ++ shut',by rw [closed',closed,List.append_assoc],fun fd member => ?_⟩
    obtain early | later := List.mem_append.mp member
    · exact whose fd early
    · obtain ⟨id,role,known,listener,rfl⟩ := whose' fd later
      obtain ⟨old,found,same,fd⟩ := first.listeners id role known
      exact ⟨id,old,found,same.trans listener,fd⟩

theorem uninit_shuts (world : World) {id : Nat} (listens : (world.net.roles id).any Role.listener = true) (threw : Bool) :
    Shuts world {world with net := world.net.uninit threw id} := by
  obtain ⟨role,known,listener⟩ := (Option.any_eq_true _ _).mp listens
  have roles : (world.net.uninit threw id).roles = Function.update world.net.roles id (some (role.call ⟨.uninit,threw⟩)) :=
    Net.call_roles known _
  refine ⟨fun _ => rfl,?_,?_,?_⟩
  · intro other session found still
    have away : other ≠ id := by
      rintro rfl
      cases known.symm.trans found
      exact absurd (still.symm.trans listener) Bool.false_ne_true
    exact (congrFun roles other).trans ((Function.update_of_ne away _ _).trans found)
  · intro other after found
    change (world.net.uninit threw id).roles other = some after at found
    rw [roles] at found
    by_cases same : other = id
    · subst same
      rw [Function.update_self] at found
      cases found
      exact ⟨role,known,rfl,rfl⟩
    · exact ⟨after,(Function.update_of_ne same _ _).symm.trans found,rfl,rfl⟩
  · have either : (world.net.uninit threw id).closed = world.net.closed ∨
        (world.net.uninit threw id).closed = world.net.closed ++ [role.fd] := by
      unfold Net.uninit Net.call
      rw [known]
      dsimp only
      split
      · exact .inr rfl
      · exact .inl rfl
    obtain none | one := either
    · exact ⟨[],none.trans (List.append_nil _).symm,fun _ member => absurd member List.not_mem_nil⟩
    · refine ⟨[role.fd],one,fun fd member => ⟨id,role,known,listener,?_⟩⟩
      exact (List.mem_singleton.mp member).symm

theorem Shuts.step {world after : World} {label : WorkerGroup.Label} (isReload : isReload label)
    (stepped : world.step label = some after) : Shuts world after := by
  unfold World.step at stepped
  cases label with
  | uninitListener id threw =>
    simp only at stepped
    split at stepped
    next listens =>
      cases stepped
      exact uninit_shuts world listens threw
    · cases stepped
  | reload w =>
    cases stepped
    refine ⟨fun other => ?_,fun _ _ known _ => known,fun _ role known => ⟨role,known,rfl,rfl⟩,
      [],(List.append_nil _).symm,fun _ member => absurd member List.not_mem_nil⟩
    by_cases same : other = w
    · subst same
      rw [World.setWorker_self]
    · rw [World.setWorker_other _ _ same]
  | _ => exact isReload.elim

theorem Shuts.run {labels : List WorkerGroup.Label} (all : ∀ label ∈ labels, isReload label) {world after : World}
    (ran : machine.run world labels = some after) : Shuts world after := by
  induction labels generalizing world with
  | nil =>
    cases Option.some.inj ran
    exact .refl _
  | cons label rest ih =>
    obtain ⟨middle,stepped,ran⟩ := Machine.run_cons ran
    exact (Shuts.step (all label List.mem_cons_self) stepped).trans
      (ih (fun other member => all other (List.mem_cons_of_mem label member)) ran)

theorem Manager.reload_shuts {servers : List (Nat × Bool)} (retired : m.reload servers = some next) : Shuts m.world next.world := by
  obtain ⟨world,ran,rfl⟩ := Option.map_eq_some_iff.mp retired
  exact Shuts.run (reload_labels m servers) ran

theorem join_ended {s after : World} {w : Nat} {threw : Bool} (stepped : s.step (.join w threw) = some after) :
    (s.workers w).phase = .ended := by
  unfold World.step at stepped
  simp only at stepped
  split at stepped
  · assumption
  · cases stepped

theorem Manager.Sound.erase (sound : m.Sound) {it w : Nat} (here : m.group[it]? = some w) {threw : Bool}
    (joined : m.step (.join w threw) = some next) : Manager.Sound {next with group := m.group.eraseIdx it} := by
  obtain ⟨kept,stepped,group,_⟩ := sound.stepped (by rintro w ⟨⟩) joined
  refine ⟨kept.reached,kept.drained,fun other within out => ?_⟩
  by_cases same : other = w
  · subst same
    exact (step_phase sound.world stepped).2 _ (join_ended stepped)
  · refine kept.group other within fun among => out ?_
    rw [group] at among
    obtain ⟨i,at_⟩ := List.mem_iff_getElem?.mp among
    have apart : i ≠ it := by
      rintro rfl
      exact same (Option.some.inj (at_.symm.trans here))
    refine List.mem_iff_getElem?.mpr ?_
    obtain before | behind := Nat.lt_or_gt_of_ne apart
    · exact ⟨i,by rw [List.getElem?_eraseIdx_of_lt before]; exact at_⟩
    · refine ⟨i - 1,?_⟩
      rw [List.getElem?_eraseIdx_of_ge (by omega),Nat.sub_add_cancel (by omega)]
      exact at_

theorem Manager.Sound.delete (sound : m.Sound) (empty : m.group = []) {threw : Bool} (stopped : m.step (.erase threw) = some next) :
    next.world.net.closed.Perm next.world.net.opened ∧ next.world.net.subscribed = [] := by
  obtain ⟨kept,stepped,group,_⟩ := sound.stepped (by rintro w ⟨⟩) stopped
  obtain ⟨threads,workerConnections,labels,ran⟩ := kept.reached
  have staffed := reached_staffed ran
  refine (stopped_workers_closed_every_socket ran).2.2 (fun w within => ?_) ?_
  · refine kept.group w (staffed.started ▸ within) ?_
    rw [group,empty]
    exact List.not_mem_nil
  · unfold World.step at stepped
    simp only at stepped
    split at stepped
    · rw [← Option.some.inj stepped]
    · cases stepped

end Managers

section Servers

variable {s next : Server}

/-- A retired manager whose one group has no thread keeps that group, which never exits. -/
def Manager.Stranded (m : Manager) : Prop := (∀ w, (m.world.workers w).exit = false) ∧ m.group ≠ []

def Server.managers (s : Server) : List Manager := s.deleted ++ s.retired ++ [s.current]

structure Server.Sound (s : Server) : Prop where
  current : s.current.Sound ∧ Serving s.current.world ∧ s.current.group ≠ []
  retired : ∀ m ∈ s.retired, m.Sound ∧ (m.single = true → m.Stranded)
  deleted : ∀ m ∈ s.deleted, m.world.net.closed.Perm m.world.net.opened ∧ m.world.net.subscribed = []
  once : (s.managers.map Manager.number).Perm (List.range (s.current.number + 1))

theorem Server.start_sound (threads workerConnections : Nat) : (Server.start threads workerConnections).Sound where
  current := by
    refine ⟨ServerReload.start_sound 0 threads workerConnections,start_serving _ workerConnections,?_⟩
    show List.range (if threads = 0 then 1 else threads) ≠ []
    rw [Ne,List.range_eq_nil]
    split <;> omega
  retired := fun m member => nomatch member
  deleted := fun m member => nomatch member
  once := List.Perm.refl _

theorem Server.Sound.move (sound : s.Sound) {k : Nat} {m moved : Manager} (here : s.retired[k]? = some m)
    (kept : moved.Sound) (stranded : moved.single = true → moved.Stranded) (number : moved.number = m.number) (sweep : Sweep) :
    Server.Sound {s with retired := s.retired.set k moved,sweep := sweep} := by
  refine ⟨sound.current,fun other member => ?_,sound.deleted,?_⟩
  · obtain old | rfl := List.mem_or_eq_of_mem_set member
    · exact sound.retired other old
    · exact ⟨kept,stranded⟩
  · have same : (s.retired.set k moved).map Manager.number = s.retired.map Manager.number := by
      rw [List.map_set,number]
      obtain ⟨within,at_⟩ := List.getElem?_eq_some_iff.mp here
      refine List.ext_getElem? fun i => ?_
      rw [List.getElem?_set]
      split
      · rename_i same
        subst same
        rw [List.length_map,if_pos within,List.getElem?_map,here]
        rfl
      · rfl
    have once := sound.once
    simp only [Server.managers,List.map_append] at once ⊢
    rw [same]
    exact once

theorem Server.Sound.check (sound : s.Sound) {threw : Bool} (checked : s.check threw = some next) : next.Sound := by
  unfold Server.check at checked
  split at checked
  · cases checked
  rename_i k it todo _
  split at checked
  · cases checked
  rename_i m here
  have among : m ∈ s.retired := List.mem_of_getElem? here
  obtain ⟨kept,stranded⟩ := sound.retired m among
  cases todo with
  | zero =>
    simp only at checked
    unfold Server.leave at checked
    split at checked
    · rename_i empty
      obtain ⟨stopped,stepped,rfl⟩ := Option.map_eq_some_iff.mp checked
      have number := (kept.stepped (by rintro w ⟨⟩) stepped).2.2.2.2
      refine ⟨sound.current,fun other member => sound.retired other (List.mem_of_mem_eraseIdx member),fun other member => ?_,?_⟩
      · obtain old | new := List.mem_append.mp member
        · exact sound.deleted other old
        · rw [List.mem_singleton.mp new]
          exact kept.delete empty stepped
      · have once := sound.once
        simp only [Server.managers,List.map_append,List.map_cons,List.map_nil] at once ⊢
        have taken : (s.retired.map Manager.number).Perm (stopped.number::(s.retired.eraseIdx k).map Manager.number) := by
          rw [number,← List.map_cons]
          obtain ⟨within,at_⟩ := List.getElem?_eq_some_iff.mp here
          exact at_ ▸ (List.getElem_cons_eraseIdx_perm within).symm.map Manager.number
        refine List.Perm.trans ?_ once
        refine List.Perm.append_right _ ?_
        rw [List.append_assoc]
        exact List.Perm.append_left _ taken.symm
    · cases checked
      exact ⟨sound.current,sound.retired,sound.deleted,sound.once⟩
  | succ todo =>
    simp only at checked
    unfold Server.visit at checked
    split at checked
    · cases checked
      exact ⟨sound.current,sound.retired,sound.deleted,sound.once⟩
    · rename_i w at_
      split at checked
      · rename_i exited
        obtain ⟨joined,stepped,rfl⟩ := Option.map_eq_some_iff.mp checked
        obtain ⟨_,_,_,single,number⟩ := kept.stepped (by rintro w ⟨⟩) stepped
        refine sound.move here (kept.erase at_ stepped) (fun alone => ?_) number _
        exact absurd exited (by rw [(stranded (single.symm.trans alone)).1 w]; exact Bool.false_ne_true)
      · cases checked
        exact ⟨sound.current,sound.retired,sound.deleted,sound.once⟩

theorem Server.Sound.step (sound : s.Sound) {label : Label} (stepped : s.step label = some next) : next.Sound := by
  unfold Server.step at stepped
  split at stepped
  · cases stepped
  obtain ⟨kept,serving,used⟩ := sound.current
  cases label with
  | serve label =>
    simp only at stepped
    split at stepped
    · rename_i isFree
      obtain ⟨m,moved,rfl⟩ := Option.map_eq_some_iff.mp stepped
      obtain ⟨after,turned,group,_,number⟩ := kept.stepped (free_goes isFree) moved
      refine ⟨⟨after,(free_flags kept.world isFree turned).2.1 serving,group ▸ used⟩,sound.retired,sound.deleted,?_⟩
      have once := sound.once
      simp only [Server.managers,List.map_append,List.map_cons,List.map_nil] at once ⊢
      rw [number]
      exact once
    · cases stepped
  | drain k label =>
    simp only at stepped
    split at stepped
    · cases stepped
    rename_i m here
    split at stepped
    · rename_i allowed
      obtain ⟨moved,turned,rfl⟩ := Option.map_eq_some_iff.mp stepped
      obtain ⟨old,stranded⟩ := sound.retired m (List.mem_of_getElem? here)
      obtain ⟨after,world,group,single,number⟩ := old.stepped (free_goes allowed.1) turned
      refine sound.move here after (fun alone => ?_) number _
      have alone : m.single = true := single.symm.trans alone
      obtain ⟨exit,used⟩ := stranded alone
      have still : isTurn label = false := Bool.eq_false_iff.mpr fun turns => allowed.2 ⟨alone,turns⟩
      rw [Manager.Stranded,(free_flags old.world allowed.1 world).2.2 still,group]
      exact ⟨exit,used⟩
    · cases stepped
  | sweep =>
    simp only at stepped
    split at stepped
    · cases stepped
      exact ⟨sound.current,sound.retired,sound.deleted,sound.once⟩
    · cases stepped
  | check threw => exact sound.check stepped
  | reload servers threads workerConnections =>
    simp only at stepped
    split at stepped
    · obtain ⟨m,moved,rfl⟩ := Option.map_eq_some_iff.mp stepped
      obtain ⟨after,exit,group,number⟩ := kept.reload moved
      have fresh := (Server.start_sound threads workerConnections).current
      refine ⟨⟨ServerReload.start_sound _ threads workerConnections,fresh.2.1,fresh.2.2⟩,fun other member => ?_,sound.deleted,?_⟩
      · obtain old | new := List.mem_append.mp member
        · exact sound.retired other old
        · rw [List.mem_singleton.mp new]
          exact ⟨after,fun _ => ⟨fun w => (exit w).trans (serving w).2,group ▸ used⟩⟩
      · have once := sound.once
        simp only [Server.managers,List.map_append,List.map_cons,List.map_nil] at once ⊢
        rw [number,List.range_succ]
        refine List.Perm.append_right _ ?_
        rw [← List.append_assoc]
        exact once
    · cases stepped

theorem reached_server {threads workerConnections : Nat} {labels : List Label}
    (ran : server.run (Server.start threads workerConnections) labels = some s) : s.Sound := by
  have keeps : server.Keeps (fun _ _ => True) Server.Sound := fun _ _ _ sound _ stepped => sound.step stepped
  exact keeps.run_all (Server.start_sound threads workerConnections) ran

/-- However often the server reloads: a worker gives up only when it has no roles; a reload
retires the manager in service with its role maps as they are, and closes no socket but those
of listeners; a manager that is deleted leaves no socket open and no subscription behind; and
each manager is in service, retired or deleted, and deleted once. -/
theorem reload_drains {threads workerConnections : Nat} {labels : List Label}
    (ran : server.run (Server.start threads workerConnections) labels = some s) :
    (∀ m ∈ s.current::s.retired, ∀ w, (m.world.workers w).exit = true → (m.world.workers w).roleMap = []) ∧
      (∀ servers threads workerConnections next, server.step s (.reload servers threads workerConnections) = some next →
        ∃ m, next.retired = s.retired ++ [m] ∧ next.deleted = s.deleted ∧ Shuts s.current.world m.world) ∧
      (∀ m ∈ s.deleted, m.world.net.closed.Perm m.world.net.opened ∧ m.world.net.subscribed = []) ∧
      (s.managers.map Manager.number).Perm (List.range (s.current.number + 1)) := by
  have sound := reached_server ran
  refine ⟨fun m member w exit => ?_,?_,sound.deleted,sound.once⟩
  · obtain rfl | member := List.mem_cons.mp member
    · exact (sound.current.1.drained.exits w exit).1
    · exact ((sound.retired m member).1.drained.exits w exit).1
  · intro servers threads workerConnections next stepped
    change s.step (.reload servers threads workerConnections) = some next at stepped
    unfold Server.step at stepped
    split at stepped
    · cases stepped
    simp only at stepped
    split at stepped
    · obtain ⟨m,reloaded,rfl⟩ := Option.map_eq_some_iff.mp stepped
      exact ⟨m,rfl,rfl,Manager.reload_shuts reloaded⟩
    · cases stepped

/-- A server with a session when it is reloaded. -/
def streaming : List Label := .serve (.handoff 7 arrival)::List.replicate 9 (.serve (.turn 0 calm))

def reloaded : List Label := streaming ++ [.reload [] 1 8,.drain 0 (.turn 0 calm),.drain 0 (.turn 0 calm),.sweep,.check false,.check false]

theorem reload_drains_reloaded : ∃ s, server.run (Server.start 1 8) reloaded = some s ∧
    (∃ m ∈ s.retired, (m.world.workers 0).roleMap = [(5,7)] ∧ m.world.net.closed = [] ∧ (m.world.workers 0).exit = false) ∧
    (s.managers.map Manager.number).Perm [0,1] := by
  obtain ⟨exits,_,_,once⟩ := reload_drains (show server.run (Server.start 1 8) reloaded = some _ from rfl)
  refine ⟨_,rfl,⟨_,List.mem_singleton_self _,rfl,rfl,?_⟩,once⟩
  -- it has a role, so it goes on
  exact Bool.eq_false_iff.mpr fun exit => List.cons_ne_nil _ _ (exits _ (List.mem_cons_of_mem _ (List.mem_singleton_self _)) 0 exit)

theorem quiet_closed {world after : World} {label : WorkerGroup.Label} (isFree : free label = true) (still : isTurn label = false)
    (stepped : world.step label = some after) : after.net.closed = world.net.closed := by
  have spared {id : Nat} {call : CloseNotification.Call} (spares : ∀ role : Role, (role.call call).srt = role.srt) :
      (world.net.call id call).closed = world.net.closed := by
    unfold Net.call
    split
    · rfl
    · rename_i role _
      rw [spares role]
      cases role.srt <;> rfl
  unfold World.step at stepped
  cases label with
  | handoff id role =>
    simp only at stepped
    split at stepped
    · cases stepped
      rfl
    · cases stepped
  | kick id =>
    cases stepped
    exact spared fun role => rfl
  | complete id response =>
    cases stepped
    refine spared fun role => ?_
    show (role.toRole.complete response).srt = role.srt
    unfold CloseNotification.Role.complete
    split <;> rfl
  | turn w answers => cases still
  | uninitListener id threw => cases isFree
  | reload w => cases isFree
  | stop w => cases isFree
  | join w threw => cases isFree
  | erase threw => cases isFree

/-- What is left of a manager: its number, its workers as they stood, and its sockets. -/
def Manager.Remains (m m' : Manager) : Prop :=
  m'.number = m.number ∧ m'.single = m.single ∧ m'.world.workers = m.world.workers ∧ m'.world.net.closed = m.world.net.closed

theorem Server.Sound.strands (sound : s.Sound) {m : Manager} (single : m.single = true) (kept : ∃ m' ∈ s.retired, m.Remains m')
    {label : Label} (stepped : s.step label = some next) : ∃ m' ∈ next.retired, m.Remains m' := by
  obtain ⟨m',among,number,alone,workers,closed⟩ := kept
  have remains : m.Remains m' := ⟨number,alone,workers,closed⟩
  obtain ⟨old,stranded⟩ := sound.retired m' among
  obtain ⟨exit,used⟩ := stranded (alone.trans single)
  obtain ⟨j,at_⟩ := List.mem_iff_getElem?.mp among
  -- a step in another retired manager
  have aside {k : Nat} (away : k ≠ j) (other : Manager) : m' ∈ s.retired.set k other :=
    List.mem_of_getElem? (i := j) (by rw [List.getElem?_set_ne away]; exact at_)
  unfold Server.step at stepped
  split at stepped
  · cases stepped
  cases label with
  | serve label =>
    simp only at stepped
    split at stepped
    · obtain ⟨current,_,rfl⟩ := Option.map_eq_some_iff.mp stepped
      exact ⟨m',among,remains⟩
    · cases stepped
  | drain k label =>
    simp only at stepped
    split at stepped
    · cases stepped
    rename_i here' here
    split at stepped
    · rename_i allowed
      obtain ⟨moved,turned,rfl⟩ := Option.map_eq_some_iff.mp stepped
      by_cases same : k = j
      · subst same
        cases here.symm.trans at_
        obtain ⟨world,went,rfl⟩ := Option.map_eq_some_iff.mp turned
        have still : isTurn label = false := Bool.eq_false_iff.mpr fun turns => allowed.2 ⟨alone.trans single,turns⟩
        refine ⟨_,List.mem_of_getElem? (i := k) (List.getElem?_set_self (List.getElem?_eq_some_iff.mp here).1),number,alone,?_,?_⟩
        · exact ((free_flags old.world allowed.1 went).2.2 still).trans workers
        · exact (quiet_closed allowed.1 still went).trans closed
      · exact ⟨m',aside same moved,remains⟩
    · cases stepped
  | sweep =>
    simp only at stepped
    split at stepped
    · cases stepped
      exact ⟨m',among,remains⟩
    · cases stepped
  | check threw =>
    simp only at stepped
    unfold Server.check at stepped
    split at stepped
    · cases stepped
    rename_i k it todo _
    split at stepped
    · cases stepped
    rename_i here' here
    cases todo with
    | zero =>
      simp only at stepped
      unfold Server.leave at stepped
      split at stepped
      · rename_i empty
        obtain ⟨stopped,_,rfl⟩ := Option.map_eq_some_iff.mp stepped
        have away : k ≠ j := by
          rintro rfl
          cases here.symm.trans at_
          exact used empty
        refine ⟨m',?_,remains⟩
        exact List.mem_eraseIdx_iff_getElem?.mpr ⟨j,away.symm,at_⟩
      · cases stepped
        exact ⟨m',among,remains⟩
    | succ todo =>
      simp only at stepped
      unfold Server.visit at stepped
      split at stepped
      · cases stepped
        exact ⟨m',among,remains⟩
      · rename_i w _
        split at stepped
        · rename_i exited
          obtain ⟨joined,_,rfl⟩ := Option.map_eq_some_iff.mp stepped
          have away : k ≠ j := by
            rintro rfl
            cases here.symm.trans at_
            exact absurd ((exit w).symm.trans exited) Bool.false_ne_true
          exact ⟨m',aside away _,remains⟩
        · cases stepped
          exact ⟨m',among,remains⟩
  | reload servers threads workerConnections =>
    simp only at stepped
    split at stepped
    · obtain ⟨retired,_,rfl⟩ := Option.map_eq_some_iff.mp stepped
      exact ⟨m',List.mem_append_left _ among,remains⟩
    · cases stepped

/-- Where `worker_threads` is 0, the sessions of a manager that a reload retired are neither
served nor closed from then on, and it is never deleted, as long as the main loop runs. -/
theorem single_thread_reload_strands {threads workerConnections : Nat} {labels later : List Label} {final : Server}
    (ran : server.run (Server.start threads workerConnections) labels = some s) {m : Manager} (retired : m ∈ s.retired)
    (single : m.single = true) (ran' : server.run s later = some final) :
    ∃ m' ∈ final.retired, m'.number = m.number ∧ m'.world.workers = m.world.workers ∧
      m'.world.net.closed = m.world.net.closed := by
  have keeps : server.Keeps (fun _ _ => True) fun s => s.Sound ∧ ∃ m' ∈ s.retired, m.Remains m' :=
    fun _ _ _ both _ stepped => ⟨both.1.step stepped,both.1.strands single both.2 stepped⟩
  obtain ⟨_,m',among,number,_,workers,closed⟩ := keeps.run_all ⟨reached_server ran,m,retired,rfl,rfl,rfl,rfl⟩ ran'
  exact ⟨m',among,number,workers,closed⟩

/-- A publisher that was adopted when the reload came. -/
theorem single_thread_reload_strands_publisher : ∃ s final m, server.run (Server.start 0 8)
    (.serve (.handoff 7 arrival)::List.replicate 9 (.serve (.turn 0 calm)) ++ [.reload [] 0 8]) = some s ∧
    server.run s [.sweep,.check false,.check false] = some final ∧ m ∈ s.retired ∧ m.single = true ∧
    (m.world.workers 0).roleMap = [(5,7)] ∧ ∃ m' ∈ final.retired, m'.number = m.number ∧ m'.world.workers = m.world.workers ∧
      m'.world.net.closed = m.world.net.closed :=
  ⟨_,_,_,rfl,rfl,List.mem_singleton_self _,rfl,rfl,single_thread_reload_strands
    (show server.run (Server.start 0 8) (.serve (.handoff 7 arrival)::List.replicate 9 (.serve (.turn 0 calm)) ++
      [.reload [] 0 8]) = some _ from rfl) (List.mem_singleton_self _) rfl
    (show server.run _ [.sweep,.check false,.check false] = some _ from rfl)⟩

end Servers

end SrtLiveServer.ServerReload
