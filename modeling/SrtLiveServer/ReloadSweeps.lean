import SrtLiveServer.ReloadDraining

/-! The iterators of `check_invalid`. The loop keeps `it` and `it_end` from before an `erase`,
so a sweep runs past its vector as soon as it erases a worker that is not the last. -/
namespace SrtLiveServer.ServerReload
open Transition WorkerGroup

section Sweeps

variable {s next : Server}

/-- A worker is erased only as the last of its vector. -/
def Orderly (s : Server) : Label → Prop
  | .check _ => ∀ k it todo m w, s.sweep = .checking k it (todo + 1) → s.retired[k]? = some m → m.group[it]? = some w →
      (m.world.workers w).exit = true → todo = 0
  | _ => True

/-- The iterator is where it should be. -/
def Tidy (s : Server) : Prop :=
  s.strayed = false ∧ ∀ k it todo, s.sweep = .checking k it todo → ∃ m, s.retired[k]? = some m ∧ (it + todo = m.group.length ∨ todo = 0)

/-- The sweep has lost a worker from under it, and cannot come to its end. -/
def Doomed (s : Server) : Prop :=
  s.strayed = true ∨ ∃ k it todo m, s.sweep = .checking k it (todo + 1) ∧ s.retired[k]? = some m ∧ m.group.length < it + todo + 1

theorem step_aside {label : Label} (stepped : s.step label = some next) (outside : (∃ l, label = .serve l) ∨ ∃ k l, label = .drain k l) :
    next.sweep = s.sweep ∧ next.strayed = s.strayed ∧
      ∀ (k : Nat) (m : Manager), s.retired[k]? = some m → ∃ m' : Manager, next.retired[k]? = some m' ∧ m'.group = m.group := by
  unfold Server.step at stepped
  split at stepped
  · cases stepped
  obtain ⟨l,rfl⟩ | ⟨k,l,rfl⟩ := outside
  · simp only at stepped
    split at stepped
    · obtain ⟨current,_,rfl⟩ := Option.map_eq_some_iff.mp stepped
      exact ⟨rfl,rfl,fun k m here => ⟨m,here,rfl⟩⟩
    · cases stepped
  · simp only at stepped
    split at stepped
    · cases stepped
    rename_i m here
    split at stepped
    · obtain ⟨moved,turned,rfl⟩ := Option.map_eq_some_iff.mp stepped
      obtain ⟨world,_,rfl⟩ := Option.map_eq_some_iff.mp turned
      refine ⟨rfl,rfl,fun k' m' here' => ?_⟩
      by_cases same : k = k'
      · subst same
        cases here.symm.trans here'
        exact ⟨_,List.getElem?_set_self (List.getElem?_eq_some_iff.mp here).1,rfl⟩
      · exact ⟨m',(List.getElem?_set_ne same).trans here',rfl⟩
    · cases stepped

theorem sweepAt_tidy (calm : s.strayed = false) (k : Nat) : Tidy {s with sweep := s.sweepAt k} := by
  refine ⟨calm,fun k' it todo at_ => ?_⟩
  change s.sweepAt k = _ at at_
  unfold Server.sweepAt at at_
  split at at_
  · cases at_
  · rename_i m here
    cases at_
    exact ⟨m,here,.inl (Nat.zero_add _)⟩

theorem Tidy.outside (tidy : Tidy s) {label : Label} (stepped : s.step label = some next)
    (outside : (∃ l, label = .serve l) ∨ ∃ k l, label = .drain k l) : Tidy next := by
  obtain ⟨sweep,strayed,vectors⟩ := step_aside stepped outside
  refine ⟨strayed.trans tidy.1,fun k it todo at_ => ?_⟩
  obtain ⟨m,here,place⟩ := tidy.2 k it todo (sweep.symm.trans at_)
  obtain ⟨m',here',group⟩ := vectors k m here
  exact ⟨m',here',group ▸ place⟩

theorem Tidy.check (tidy : Tidy s) {threw : Bool} (orderly : Orderly s (.check threw)) (checked : s.check threw = some next) :
    Tidy next := by
  unfold Server.check at checked
  split at checked
  · cases checked
  rename_i k it todo sweep
  obtain ⟨m,here,place⟩ := tidy.2 k it todo sweep
  rw [here] at checked
  cases todo with
  | zero =>
    simp only at checked
    unfold Server.leave at checked
    split at checked
    · obtain ⟨stopped,_,rfl⟩ := Option.map_eq_some_iff.mp checked
      exact sweepAt_tidy (s := {s with retired := s.retired.eraseIdx k,deleted := s.deleted ++ [stopped]}) tidy.1 k
    · cases checked
      exact sweepAt_tidy tidy.1 (k + 1)
  | succ todo =>
    have place : it + (todo + 1) = m.group.length := place.resolve_right (Nat.succ_ne_zero todo)
    simp only at checked
    unfold Server.visit at checked
    have inside : it < m.group.length := by omega
    rw [List.getElem?_eq_getElem inside] at checked
    simp only at checked
    split at checked
    · rename_i exited
      obtain ⟨joined,_,rfl⟩ := Option.map_eq_some_iff.mp checked
      have last := orderly k it todo m _ sweep here (List.getElem?_eq_getElem inside) exited
      refine ⟨tidy.1,fun k' it' todo' at_ => ?_⟩
      cases at_
      exact ⟨_,List.getElem?_set_self (List.getElem?_eq_some_iff.mp here).1,.inr last⟩
    · cases checked
      refine ⟨tidy.1,fun k' it' todo' at_ => ?_⟩
      cases at_
      exact ⟨m,here,.inl (by omega)⟩

theorem Tidy.step (tidy : Tidy s) {label : Label} (orderly : Orderly s label) (stepped : s.step label = some next) : Tidy next := by
  have whole := stepped
  unfold Server.step at stepped
  split at stepped
  · cases stepped
  cases label with
  | serve label => exact tidy.outside whole (.inl ⟨label,rfl⟩)
  | drain k label => exact tidy.outside whole (.inr ⟨k,label,rfl⟩)
  | sweep =>
    simp only at stepped
    split at stepped
    · cases stepped
      exact sweepAt_tidy tidy.1 0
    · cases stepped
  | check threw => exact tidy.check orderly stepped
  | reload servers threads workerConnections =>
    simp only at stepped
    split at stepped
    · rename_i resting
      obtain ⟨m,_,rfl⟩ := Option.map_eq_some_iff.mp stepped
      exact ⟨tidy.1,fun k it todo at_ => absurd (resting.symm.trans at_) Sweep.noConfusion⟩
    · cases stepped

theorem Doomed.step (doomed : Doomed s) {label : Label} (stepped : s.step label = some next) : Doomed next := by
  have whole := stepped
  obtain strayed | ⟨k,it,todo,m,sweep,here,beyond⟩ := doomed
  · unfold Server.step at stepped
    rw [if_pos strayed] at stepped
    cases stepped
  have aside (outside : (∃ l, label = .serve l) ∨ ∃ k l, label = .drain k l) : Doomed next := by
    obtain ⟨kept,_,vectors⟩ := step_aside whole outside
    obtain ⟨m',here',group⟩ := vectors k m here
    exact .inr ⟨k,it,todo,m',kept.trans sweep,here',group ▸ beyond⟩
  unfold Server.step at stepped
  split at stepped
  · cases stepped
  cases label with
  | serve label => exact aside (.inl ⟨label,rfl⟩)
  | drain k label => exact aside (.inr ⟨k,label,rfl⟩)
  | sweep =>
    simp only at stepped
    split at stepped
    · rename_i resting
      exact absurd (resting.symm.trans sweep) Sweep.noConfusion
    · cases stepped
  | check threw =>
    simp only at stepped
    unfold Server.check at stepped
    rw [sweep] at stepped
    simp only at stepped
    rw [here] at stepped
    simp only at stepped
    unfold Server.visit at stepped
    split at stepped
    · cases stepped
      exact .inl rfl
    · rename_i w at_
      have inside : it < m.group.length := (List.getElem?_eq_some_iff.mp at_).1
      obtain ⟨rest,more⟩ : ∃ rest, todo = rest + 1 := ⟨todo - 1,by omega⟩
      split at stepped
      · obtain ⟨joined,_,rfl⟩ := Option.map_eq_some_iff.mp stepped
        refine .inr ⟨k,it + 1,rest,_,by rw [more],List.getElem?_set_self (List.getElem?_eq_some_iff.mp here).1,?_⟩
        show (m.group.eraseIdx it).length < _
        rw [List.length_eraseIdx_of_lt inside]
        omega
      · cases stepped
        exact .inr ⟨k,it + 1,rest,m,by rw [more],here,by omega⟩
  | reload servers threads workerConnections =>
    simp only at stepped
    split at stepped
    · rename_i resting
      exact absurd (resting.symm.trans sweep) Sweep.noConfusion
    · cases stepped

theorem Tidy.dooms (tidy : Tidy s) {label : Label} (disorderly : ¬ Orderly s label) (stepped : s.step label = some next) :
    Doomed next := by
  unfold Server.step at stepped
  split at stepped
  · cases stepped
  cases label with
  | check threw =>
    simp only [Orderly,not_forall] at disorderly
    obtain ⟨k,it,todo,m,w,sweep,here,at_,exited,more⟩ := disorderly
    obtain ⟨m',here',place⟩ := tidy.2 k it (todo + 1) sweep
    cases here.symm.trans here'
    have place := place.resolve_right (Nat.succ_ne_zero todo)
    simp only at stepped
    unfold Server.check at stepped
    rw [sweep] at stepped
    simp only at stepped
    rw [here] at stepped
    simp only at stepped
    unfold Server.visit at stepped
    rw [at_] at stepped
    simp only at stepped
    rw [if_pos exited] at stepped
    obtain ⟨joined,_,rfl⟩ := Option.map_eq_some_iff.mp stepped
    obtain ⟨rest,left⟩ : ∃ rest, todo = rest + 1 := ⟨todo - 1,by omega⟩
    refine .inr ⟨k,it + 1,rest,_,by rw [left],List.getElem?_set_self (List.getElem?_eq_some_iff.mp here).1,?_⟩
    show (m.group.eraseIdx it).length < _
    rw [List.length_eraseIdx_of_lt (by omega)]
    omega
  | _ => exact absurd trivial disorderly

/-- Between sweeps, or behind a stray iterator: the sweeps stayed inside their vectors
exactly if each erased no worker but the last of its vector. -/
theorem sweeps_stay_inside_iff {threads workerConnections : Nat} {labels : List Label}
    (ran : server.run (Server.start threads workerConnections) labels = some s) (settled : s.strayed = true ∨ s.sweep = .rest) :
    s.strayed = false ↔ server.Admits Orderly (Server.start threads workerConnections) labels := by
  have general : ∀ (labels : List Label) (first : Server), Tidy first → server.run first labels = some s →
      (s.strayed = false ↔ server.Admits Orderly first labels) := by
    intro labels
    induction labels with
    | nil =>
      intro first tidy ran
      cases Option.some.inj ran
      exact ⟨fun _ => trivial,fun _ => tidy.1⟩
    | cons label rest ih =>
      intro first tidy ran
      obtain ⟨middle,stepped,ran⟩ := Machine.run_cons ran
      by_cases orderly : Orderly first label
      · rw [ih middle (tidy.step orderly stepped) ran]
        constructor
        · intro admitted
          refine ⟨orderly,fun other stepped' => ?_⟩
          cases stepped.symm.trans stepped'
          exact admitted
        · exact fun admitted => admitted.2 middle stepped
      · have keeps : server.Keeps (fun _ _ => True) Doomed := fun _ _ _ doomed _ stepped => doomed.step stepped
        have strayed : s.strayed = true := by
          obtain strayed | ⟨k,it,todo,_,sweep,_⟩ := keeps.run_all (tidy.dooms orderly stepped) ran
          · exact strayed
          · exact settled.resolve_right fun resting => absurd (resting.symm.trans sweep) Sweep.noConfusion
        exact ⟨fun safe => absurd (strayed.symm.trans safe) Bool.noConfusion,fun admitted => absurd admitted.1 orderly⟩
  exact general labels _ ⟨rfl,fun k it todo at_ => absurd at_ Sweep.noConfusion⟩ ran

/-- Two workers, of which the first has exited: the sweep reads behind the vector. -/
theorem sweeps_stay_inside_iff_strayed : ∃ s, server.run (Server.start 2 8)
    [.reload [] 1 8,.drain 0 (.turn 0 calm),.drain 0 (.turn 0 calm),.sweep,.check false,.check false] = some s ∧
    s.strayed = true ∧ ¬ server.Admits Orderly (Server.start 2 8)
      [.reload [] 1 8,.drain 0 (.turn 0 calm),.drain 0 (.turn 0 calm),.sweep,.check false,.check false] := by
  refine ⟨_,rfl,rfl,fun admitted => ?_⟩
  have inside := (@sweeps_stay_inside_iff _ 2 8 _ rfl (.inl rfl)).mpr admitted
  cases inside

end Sweeps

end SrtLiveServer.ServerReload
