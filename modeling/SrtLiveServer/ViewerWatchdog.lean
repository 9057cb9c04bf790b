import SrtLiveServer.Egress
import SrtLiveServer.Projection
import Mathlib.Data.List.DropRight

/-! The watchdog for stuck viewers. `handler_write_data` notes when the socket first had no
room, forgets it with every message the socket takes, and gives the viewer up where the
note is too old. A note is kept from call to call, and 0 stands for none. -/
namespace SrtLiveServer.Egress
open Transition Projection

/-- A whole message offered to the socket: the answer, and the time it was seen. -/
structure Attempt where
  outcome : Outcome
  now : Int

def Attempt.accepted (a : Attempt) : Bool := match a.outcome with
  | .accepted => true
  | _ => false

def Attempt.refused (a : Attempt) : Bool := match a.outcome with
  | .asyncSnd => true
  | _ => false

/-- When the socket first had no room since it last took a message. -/
def stuckSince (history : List Attempt) : Option Int :=
  ((history.rtakeWhile fun a => !a.accepted).find? Attempt.refused).map Attempt.now

def State.attempts (s : State) : Label → List Attempt
  | .write outcome now => if s.Offers then [⟨outcome,now⟩] else []
  | _ => []

/-- The note and the latency of the role. -/
structure Watch where
  stuckSince : Int
  latency : Int

def Watch.act (w : Watch) (a : Attempt) : Watch := match a.outcome with
  | .accepted => {w with stuckSince := 0}
  | .asyncSnd => if w.stuckSince = 0 then {w with stuckSince := a.now} else w
  | _ => w

def State.watch (s : State) : Watch := ⟨s.role.backpressureStuckSinceMs,s.role.latency⟩

/-- The call ended with `SLS_ERROR`. -/
def State.GivenUp (s : State) : Prop := s.phase = .idle ∧ s.ret = none

section Note

theorem stuckSince_accepted (history : List Attempt) (now : Int) : stuckSince (history ++ [⟨.accepted,now⟩]) = none := by
  unfold stuckSince
  rw [List.rtakeWhile_concat_neg]
  · rfl
  · simp [Attempt.accepted]

theorem stuckSince_append (history : List Attempt) (a : Attempt) (missed : a.accepted = false) :
    stuckSince (history ++ [a]) = (stuckSince history).or (if a.refused then some a.now else none) := by
  unfold stuckSince
  rw [List.rtakeWhile_concat_pos,List.find?_append]
  · cases List.find? Attempt.refused (history.rtakeWhile fun a => !a.accepted) with
    | some first => rfl
    | none => by_cases refused : a.refused <;> simp [refused]
  · simp [missed]

theorem stuckSince_mem {history : List Attempt} {since : Int} (found : stuckSince history = some since) :
    ∃ a ∈ history, a.now = since := by
  obtain ⟨a,first,rfl⟩ := Option.map_eq_some_iff.mp found
  exact ⟨a,(List.rtakeWhile_suffix _ _).subset (List.mem_of_find?_eq_some first),rfl⟩

theorem foldl_watch (latency : Int) (history : List Attempt) (clock : ∀ a ∈ history, a.now ≠ 0) :
    history.foldl Watch.act ⟨0,latency⟩ = ⟨(stuckSince history).getD 0,latency⟩ := by
  induction history using List.reverseRecOn with
  | nil => rfl
  | append_singleton history a ih =>
    rw [List.foldl_append,ih fun b member => clock b (List.mem_append_left _ member)]
    obtain ⟨outcome,now⟩ := a
    cases outcome with
    | accepted =>
      rw [stuckSince_accepted]
      rfl
    | asyncSnd =>
      rw [stuckSince_append _ _ rfl]
      cases noted : stuckSince history with
      | none => rfl
      | some since =>
        obtain ⟨b,member,rfl⟩ := stuckSince_mem noted
        exact if_neg (clock b (List.mem_append_left _ member))
    | failed =>
      rw [stuckSince_append _ _ rfl]
      simp [Watch.act,Attempt.refused]
    | short =>
      rw [stuckSince_append _ _ rfl]
      simp [Watch.act,Attempt.refused]

end Note

section View

variable {r : Nat} {s next : State}

theorem State.drain_watch (s : State) (batch : Nat) (now : Int) : (s.drain r batch now).watch = s.watch := by
  unfold State.drain
  split
  · rfl
  split
  · rfl
  split
  · unfold State.get
    by_cases present : s.present
    · rw [if_pos present]
      dsimp only
      split
      · rfl
      · rfl
    · rw [if_neg present]
      rfl
  · rfl

theorem State.backpressure_watch (s : State) (now : Int) : (s.backpressure now).watch = s.watch.act ⟨.asyncSnd,now⟩ := by
  have noted : (s.backpressure now).watch = ⟨if s.watch.stuckSince = 0 then now else s.watch.stuckSince,s.role.latency⟩ := by
    unfold State.backpressure
    dsimp only
    split <;> rfl
  rw [noted]
  unfold Watch.act
  dsimp only
  split <;> rfl

theorem State.attempts_offered (s : State) (offers : s.Offers) (outcome : Outcome) (now : Int) :
    s.attempts (.write outcome now) = [⟨outcome,now⟩] := if_pos offers

theorem State.attempts_withheld (s : State) (withheld : ¬s.Offers) (outcome : Outcome) (now : Int) :
    s.attempts (.write outcome now) = [] := if_neg withheld

theorem State.write_watch (s : State) (batch : Nat) (phase : s.phase = .write batch) (outcome : Outcome) (now : Int) :
    (s.write batch outcome now).watch = (s.attempts (.write outcome now)).foldl Watch.act s.watch := by
  by_cases offers : s.Offers
  · rw [s.attempts_offered offers]
    obtain ⟨_,left,srt⟩ := offers
    unfold State.write
    rw [if_pos left,srt]
    cases outcome with
    | accepted => rfl
    | asyncSnd => exact s.backpressure_watch now
    | failed => rfl
    | short => rfl
  · rw [s.attempts_withheld offers]
    unfold State.write
    split
    next left =>
      rw [if_pos]
      · rfl
      · by_contra srt
        exact offers ⟨⟨batch,phase⟩,left,by simpa using srt⟩
    · split <;> rfl

theorem State.step_watch {label : Label} (stepped : s.step r label = some next) :
    next.watch = (s.attempts label).foldl Watch.act s.watch := by
  cases label with
  | receive data =>
    simp only [State.step] at stepped
    split at stepped <;> cases stepped <;> rfl
  | ring op =>
    cases op with
    | put data => cases stepped
    | get reader size aligned now =>
      simp only [State.step] at stepped
      split at stepped <;> cases stepped
      rfl
    | setSize n =>
      simp only [State.step] at stepped
      split at stepped <;> cases stepped
      rfl
    | recreate now =>
      cases stepped
      rfl
    | otherRing =>
      cases stepped
      rfl
  | remove =>
    cases stepped
    rfl
  | invalidSrt =>
    cases stepped
    rfl
  | call passed keyed =>
    simp only [State.step] at stepped
    split at stepped
    · split at stepped
      · cases stepped
        rfl
      · split at stepped <;> cases stepped <;> rfl
    · cases stepped
  | drain now =>
    simp only [State.step] at stepped
    split at stepped
    · cases stepped
      exact s.drain_watch _ now
    · cases stepped
  | write outcome now =>
    simp only [State.step] at stepped
    split at stepped
    next batch phase =>
      cases stepped
      exact s.write_watch batch phase outcome now
    · cases stepped

/-- The watchdog sees the attempts of a run and nothing else of it. -/
def watchView (r : Nat) : View (egress r) Watch Attempt where
  view := State.watch
  concern := State.attempts
  act := Watch.act
  commutes := fun _ _ _ stepped => State.step_watch stepped

def attemptsOf (r : Nat) (s : State) (labels : List Label) : List Attempt := (watchView r).trace s labels

theorem attempts_label {s : State} {label : Label} {a : Attempt} (member : a ∈ s.attempts label) :
    label = .write a.outcome a.now := by
  cases label with
  | write outcome now =>
    unfold State.attempts at member
    dsimp only at member
    split at member
    · cases List.mem_singleton.mp member
      rfl
    · cases member
  | receive data => cases member
  | ring op => cases member
  | remove => cases member
  | invalidSrt => cases member
  | call passed keyed => cases member
  | drain now => cases member

theorem attemptsOf_label {s : State} {labels : List Label} {a : Attempt} (member : a ∈ attemptsOf r s labels) :
    .write a.outcome a.now ∈ labels := by
  obtain ⟨_,label,listed,concerned⟩ := (watchView r).mem_trace member
  exact attempts_label concerned ▸ listed

end View

variable {r : Nat} {s next : State}

theorem State.timeout_eq (s : State) : s.role.backpressureStuckTimeoutMs = max 500 (3 * s.watch.latency) := by
  unfold Role.backpressureStuckTimeoutMs State.watch
  dsimp only
  split <;> omega

theorem State.backpressure_gives_up (s : State) (now : Int) : (s.backpressure now).GivenUp ↔
    s.watch.stuckSince ≠ 0 ∧ max 500 (3 * s.watch.latency) < now - s.watch.stuckSince := by
  rw [← s.timeout_eq]
  unfold State.backpressure
  dsimp only
  split
  next old => exact ⟨fun _ => old,fun _ => ⟨rfl,rfl⟩⟩
  next young => exact ⟨fun given => absurd given.2 (Option.some_ne_none _),fun old => absurd old young⟩

theorem State.write_gives_up (offers : s.Offers) {outcome : Outcome} {now : Int}
    (stepped : s.step r (.write outcome now) = some next) :
    next.GivenUp ↔ outcome = .failed ∨ outcome = .asyncSnd ∧ s.watch.stuckSince ≠ 0 ∧
      max 500 (3 * s.watch.latency) < now - s.watch.stuckSince := by
  obtain ⟨⟨batch,phase⟩,left,srt⟩ := offers
  simp only [State.step,phase] at stepped
  cases stepped
  unfold State.write
  rw [if_pos left,srt]
  cases outcome with
  | accepted => simp [State.GivenUp,phase]
  | asyncSnd => simpa using s.backpressure_gives_up now
  | failed => simp [State.GivenUp,State.leave]
  | short => simp [State.GivenUp,State.leave]

theorem note_of_run {now : Int} {role : Role} (fresh : role.backpressureStuckSinceMs = 0) {labels : List Label}
    (clock : ∀ outcome t, .write outcome t ∈ labels → t ≠ 0) (ran : (egress r).run (State.start now role) labels = some s) :
    s.watch = ⟨(stuckSince (attemptsOf r (State.start now role) labels)).getD 0,role.latency⟩ := by
  have start : (State.start now role).watch = ⟨0,role.latency⟩ := by
    rw [← fresh]
    rfl
  have watched : s.watch = (attemptsOf r (State.start now role) labels).foldl Watch.act (State.start now role).watch :=
    (watchView r).run ran
  rw [watched,start]
  exact foldl_watch role.latency _ fun a member => clock a.outcome a.now (attemptsOf_label member)

/-- In every run of a role's egress, an answer of the socket ends the call with an error
exactly where the send failed, or where it had no room and the first message it had none
for since it last took one is over three latencies and half a second old. -/
theorem stuck_viewers_are_given_up (r : Nat) (now : Int) (role : Role) (fresh : role.backpressureStuckSinceMs = 0)
    (labels : List Label) (clock : ∀ outcome t, .write outcome t ∈ labels → t ≠ 0) (s next : State)
    (ran : (egress r).run (State.start now role) labels = some s) (offers : s.Offers) (outcome : Outcome) (t : Int)
    (stepped : (egress r).step s (.write outcome t) = some next) :
    next.GivenUp ↔ outcome = .failed ∨ outcome = .asyncSnd ∧
      ∃ since, stuckSince (attemptsOf r (State.start now role) labels) = some since ∧
        max 500 (3 * role.latency) < t - since := by
  have taken : s.step r (.write outcome t) = some next := stepped
  rw [State.write_gives_up offers taken,note_of_run fresh clock ran]
  cases noted : stuckSince (attemptsOf r (State.start now role) labels) with
  | none => simp
  | some since =>
    obtain ⟨a,member,rfl⟩ := stuckSince_mem noted
    have reading : a.now ≠ 0 := clock a.outcome a.now (attemptsOf_label member)
    simp [reading]

/-- Without room from 2 to 503, past half a second. -/
def stalled : List Label :=
  [.ring (.recreate 1),.call true true,.drain 1,.receive (List.replicate tsUdpLen 71),
    .call true true,.drain 2,.write .asyncSnd 2,.call true true,.drain 503]

theorem stalled_clock : ∀ outcome t, .write outcome t ∈ stalled → t ≠ 0 := by
  intro outcome t member
  simp only [stalled,List.mem_cons,Label.write.injEq,reduceCtorEq,false_or,or_false,List.not_mem_nil] at member
  rw [member.2]
  decide

theorem stuck_viewers_are_given_up_stalled :
    ∃ s next, (egress 0).run (State.start 1 viewer) stalled = some s ∧
      (egress 0).step s (.write .asyncSnd 503) = some next ∧ next.GivenUp := by
  have taken : ((egress 0).run (State.start 1 viewer) stalled).isSome = true := by decide +kernel
  have offers : ∀ s ∈ (egress 0).run (State.start 1 viewer) stalled, s.Offers := by decide +kernel
  have goes : ∀ s ∈ (egress 0).run (State.start 1 viewer) stalled,
      ((egress 0).step s (.write .asyncSnd 503)).isSome = true := by decide +kernel
  have noted : stuckSince (attemptsOf 0 (State.start 1 viewer) stalled) = some 2 := by decide +kernel
  obtain ⟨s,ran⟩ := Option.isSome_iff_exists.mp taken
  obtain ⟨next,stepped⟩ := Option.isSome_iff_exists.mp (goes s ran)
  exact ⟨s,next,ran,stepped,(stuck_viewers_are_given_up 0 1 viewer rfl stalled stalled_clock s next ran (offers s ran)
    .asyncSnd 503 stepped).mpr (.inr ⟨rfl,2,noted,by decide⟩)⟩

end SrtLiveServer.Egress
