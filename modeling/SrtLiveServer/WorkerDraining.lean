import SrtLiveServer.ServerReload

/-! How a worker that was told to reload comes to its end: with no roles, and by itself. -/
namespace SrtLiveServer.ServerReload
open WorkerGroup

section Workers

variable {s next : World} {w : Nat}

/-- A worker gives up by itself only where it was told to reload and has no roles left; then
the thread ends. -/
structure Leaves (before after : Worker) : Prop where
  reload : after.reload = before.reload
  exits : after.exit = before.exit ∨ before.reload = true ∧ after.exit = true ∧ after.roleMap = [] ∧ after.phase = .loop
  ends : before.phase = .loop → before.exit = true → after.roleMap = [] ∧ after.phase = .ended
  ended : after.phase = .ended → before.exit = true

theorem set_leaves (away : (s.workers w).phase ≠ .loop) {after : World} {worker : Worker}
    (reload : worker.reload = (s.workers w).reload) (exit : worker.exit = (s.workers w).exit) (going : worker.phase ≠ .ended) :
    Leaves (s.workers w) ((after.setWorker w worker).workers w) := by
  rw [World.setWorker_self]
  exact ⟨reload,.inl exit,fun loop => absurd loop away,fun ended => absurd ended going⟩

theorem adopt_leaves {id : Nat} (answers : Answers) (away : (s.workers w).phase ≠ .loop) :
    Leaves (s.workers w) ((s.adopt w id answers).workers w) := by
  unfold World.adopt
  dsimp only
  split
  · exact set_leaves away rfl rfl Phase.noConfusion
  split
  · exact set_leaves away rfl rfl Phase.noConfusion
  split
  · exact set_leaves away rfl rfl Phase.noConfusion
  · exact set_leaves away rfl rfl Phase.noConfusion

theorem checkInvalid_leaves {fd id : Nat} {rest : List (Nat × Nat)} (answers : Answers) (away : (s.workers w).phase ≠ .loop) :
    Leaves (s.workers w) ((s.checkInvalid w fd id rest answers).workers w) := by
  unfold World.checkInvalid
  dsimp only
  split
  · exact set_leaves away rfl rfl Phase.noConfusion
  split
  · exact set_leaves away rfl rfl Phase.noConfusion
  · exact set_leaves away rfl rfl Phase.noConfusion

/-- At the head of its loop a worker ends, gives up, or waits for its container. -/
theorem loop_leaves {answers : Answers} (loop : (s.workers w).phase = .loop) (turned : s.turn w answers = some next) :
    Leaves (s.workers w) (next.workers w) := by
  unfold World.turn at turned
  simp only [loop] at turned
  split at turned
  · rename_i exits
    cases turned
    rw [World.setWorker_self]
    exact ⟨rfl,.inl rfl,fun _ _ => ⟨rfl,rfl⟩,fun _ => exits⟩
  split at turned
  · rename_i stays drained
    obtain ⟨told,empty⟩ := Bool.and_eq_true_iff.mp drained
    cases turned
    rw [World.setWorker_self]
    exact ⟨rfl,.inr ⟨told,rfl,List.isEmpty_iff.mp empty,rfl⟩,fun _ exits => absurd exits stays,
      fun ended => absurd ended Phase.noConfusion⟩
  split at turned
  · rename_i stays _ _
    cases turned
    rw [World.setWorker_self]
    exact ⟨rfl,.inl rfl,fun _ exits => absurd exits stays,fun ended => absurd ended Phase.noConfusion⟩
  · cases turned

theorem turn_leaves {answers : Answers} (turned : s.turn w answers = some next) : Leaves (s.workers w) (next.workers w) := by
  by_cases away : (s.workers w).phase = .loop
  · exact loop_leaves away turned
  unfold World.turn at turned
  cases phase : (s.workers w).phase with
  | ended =>
    simp only [phase] at turned
    cases turned
  | loop => exact absurd phase away
  | reading socks =>
    cases socks with
    | nil =>
      simp only [phase] at turned
      cases turned
      exact set_leaves away rfl rfl Phase.noConfusion
    | cons fd rest =>
      simp only [phase] at turned
      split at turned
      · cases turned
        exact set_leaves away rfl rfl Phase.noConfusion
      · cases turned
        exact set_leaves away rfl rfl Phase.noConfusion
  | egress todo =>
    cases todo with
    | nil =>
      simp only [phase] at turned
      cases turned
      refine set_leaves away rfl rfl ?_
      show (if answers.due then Phase.idle else .loop) ≠ .ended
      split <;> exact Phase.noConfusion
    | cons entry rest =>
      simp only [phase] at turned
      cases turned
      exact set_leaves away rfl rfl Phase.noConfusion
  | idle =>
    simp only [phase] at turned
    cases turned
    exact set_leaves away rfl rfl Phase.noConfusion
  | checkInvalid todo =>
    cases todo with
    | nil =>
      simp only [phase] at turned
      cases turned
      exact set_leaves away rfl rfl Phase.noConfusion
    | cons entry rest =>
      simp only [phase] at turned
      cases turned
      exact checkInvalid_leaves answers away
  | reap =>
    simp only [phase] at turned
    cases turned
    exact set_leaves away rfl rfl Phase.noConfusion
  | reaping stale =>
    cases stale with
    | nil =>
      simp only [phase] at turned
      cases turned
      exact set_leaves away rfl rfl Phase.noConfusion
    | cons id rest =>
      simp only [phase] at turned
      cases turned
      exact set_leaves away rfl rfl Phase.noConfusion
  | checkNew =>
    simp only [phase] at turned
    split at turned
    · cases turned
      exact set_leaves away rfl rfl Phase.noConfusion
    · split at turned
      · cases turned
        exact set_leaves away rfl rfl Phase.noConfusion
      · cases turned
        exact set_leaves away rfl rfl Phase.noConfusion
  | adopting id =>
    simp only [phase] at turned
    cases turned
    exact adopt_leaves answers away

/-- Workers that exit, or have ended, have no roles. -/
structure Drained (s : World) : Prop where
  exits : ∀ w, (s.workers w).exit = true → (s.workers w).roleMap = [] ∧
    ((s.workers w).phase = .loop ∨ (s.workers w).phase = .ended)
  ended : ∀ w, (s.workers w).phase = .ended → (s.workers w).exit = true

/-- No worker was told to reload yet. -/
def Serving (s : World) : Prop := ∀ w, (s.workers w).reload = false ∧ (s.workers w).exit = false

theorem Drained.of (drained : Drained s) (w : Nat) (others : ∀ other, other ≠ w → next.workers other = s.workers other)
    (exits : (next.workers w).exit = true → (next.workers w).roleMap = [] ∧
      ((next.workers w).phase = .loop ∨ (next.workers w).phase = .ended))
    (ended : (next.workers w).phase = .ended → (next.workers w).exit = true) : Drained next := by
  constructor
  · intro other exit
    by_cases same : other = w
    · subst same
      exact exits exit
    · rw [others other same] at exit ⊢
      exact drained.exits other exit
  · intro other phase
    by_cases same : other = w
    · subst same
      exact ended phase
    · rw [others other same] at phase ⊢
      exact drained.ended other phase

theorem Drained.turn (drained : Drained s) (sound : s.Sound) {answers : Answers} (turned : s.turn w answers = some next) :
    Drained next := by
  obtain ⟨_,exits,ends,ended⟩ := turn_leaves turned
  have running : (s.workers w).phase ≠ .ended := by
    intro exited
    unfold World.turn at turned
    simp only [exited] at turned
    cases turned
  refine drained.of w (sound.turned turned).others (fun exit => ?_) fun exited => ?_
  · obtain same | ⟨_,_,empty,loop⟩ := exits
    · rw [same] at exit
      obtain ⟨_,loop | exited⟩ := drained.exits w exit
      · obtain ⟨empty,exited⟩ := ends loop exit
        exact ⟨empty,.inr exited⟩
      · exact absurd exited running
    · exact ⟨empty,.inl loop⟩
  · obtain same | ⟨_,exit,_⟩ := exits
    · exact same.trans (ended exited)
    · exact exit

theorem Drained.same (drained : Drained s) (same : next.workers = s.workers) : Drained next :=
  ⟨fun w => by rw [same]; exact drained.exits w,fun w => by rw [same]; exact drained.ended w⟩

theorem Drained.step (drained : Drained s) (sound : s.Sound) {label : WorkerGroup.Label} {next : World}
    (stepped : s.step label = some next) (goes : ∀ w, label ≠ .stop w) : Drained next := by
  unfold World.step at stepped
  cases label with
  | handoff id role =>
    simp only at stepped
    split at stepped
    · cases stepped
      exact drained.same rfl
    · cases stepped
  | kick id =>
    cases stepped
    exact drained.same rfl
  | complete id response =>
    cases stepped
    exact drained.same rfl
  | uninitListener id threw =>
    simp only at stepped
    split at stepped
    · cases stepped
      exact drained.same rfl
    · cases stepped
  | reload w =>
    cases stepped
    refine drained.of w (fun other away => World.setWorker_other _ _ away) ?_ ?_
    · rw [World.setWorker_self]
      exact drained.exits w
    · rw [World.setWorker_self]
      exact drained.ended w
  | stop w => exact absurd rfl (goes w)
  | turn w answers =>
    simp only at stepped
    split at stepped
    · exact drained.turn sound stepped
    · cases stepped
  | join w threw =>
    simp only at stepped
    split at stepped
    · cases stepped
      refine drained.of w (fun other away => World.setWorker_other _ _ away) ?_ ?_
      · rw [World.setWorker_self]
        exact drained.exits w
      · rw [World.setWorker_self]
        exact drained.ended w
    · cases stepped
  | erase threw =>
    simp only at stepped
    split at stepped
    · cases stepped
      exact drained.same rfl
    · cases stepped

theorem start_serving (threads workerConnections : Nat) : Serving (World.start threads workerConnections) := fun _ => ⟨rfl,rfl⟩

theorem start_drained (threads workerConnections : Nat) : Drained (World.start threads workerConnections) :=
  ⟨fun _ exit => absurd exit Bool.false_ne_true,fun _ ended => absurd ended Phase.noConfusion⟩

/-- What is not the main loop's business tells no worker to reload or to stop. -/
theorem free_flags (sound : s.Sound) {label : WorkerGroup.Label} (isFree : free label = true) (stepped : s.step label = some next) :
    (∀ w, (next.workers w).reload = (s.workers w).reload) ∧ (Serving s → Serving next) ∧
      (isTurn label = false → next.workers = s.workers) := by
  have aside (same : next.workers = s.workers) : (∀ w, (next.workers w).reload = (s.workers w).reload) ∧ (Serving s → Serving next) ∧
      (isTurn label = false → next.workers = s.workers) :=
    ⟨fun w => by rw [same],fun serving w => by rw [same]; exact serving w,fun _ => same⟩
  unfold World.step at stepped
  cases label with
  | handoff id role =>
    simp only at stepped
    split at stepped
    · cases stepped
      exact aside rfl
    · cases stepped
  | kick id =>
    cases stepped
    exact aside rfl
  | complete id response =>
    cases stepped
    exact aside rfl
  | uninitListener id threw => cases isFree
  | reload w => cases isFree
  | stop w => cases isFree
  | turn w answers =>
    simp only at stepped
    split at stepped
    · have turned := sound.turned stepped
      obtain ⟨reload,exits,_,_⟩ := turn_leaves stepped
      have kept : ∀ other, (next.workers other).reload = (s.workers other).reload := by
        intro other
        by_cases same : other = w
        · rw [same]
          exact reload
        · rw [turned.others other same]
      refine ⟨kept,fun serving other => ⟨(kept other).trans (serving other).1,?_⟩,fun no => absurd no.symm Bool.false_ne_true⟩
      by_cases same : other = w
      · rw [same]
        obtain same | ⟨told,_⟩ := exits
        · exact same.trans (serving w).2
        · exact absurd ((serving w).1.symm.trans told) Bool.false_ne_true
      · rw [turned.others other same]
        exact (serving other).2
    · cases stepped
  | join w threw => cases isFree
  | erase threw => cases isFree

end Workers

end SrtLiveServer.ServerReload
