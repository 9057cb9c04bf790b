import Mathlib.Logic.Function.Basic
import SrtLiveServer.Bytes
import SrtLiveServer.Timecode
import SrtLiveServer.TimeWindows
import SrtLiveServer.Transition

/-! `CSLSLogRateLimiter`: which of the calls for a key may log. A window of a key opens at
its first call, and at the first call behind the end of the last window; the periodic
removal of old entries of all keys is not to show. -/
namespace SrtLiveServer.LogRateLimiter
open Bytes TimeWindows Transition

/-- The value of an `int64_t` after its arithmetic has wrapped. -/
def int64 (x : Int) : Int := x.bmod (2 ^ 64)

def FitsInt64 (x : Int) : Prop := -2 ^ 63 ≤ x ∧ x < 2 ^ 63

instance decidableFitsInt64 (x : Int) : Decidable (FitsInt64 x) := inferInstanceAs (Decidable (_ ∧ _))

structure Limits where
  windowMs : Int
  threshold : Int
  minIntervalMs : Int

/-- The defaults of the constructor. -/
def Limits.default : Limits := ⟨60000,5,10000⟩

structure EventStats where
  firstTimestampMs : Int
  lastTimestampMs : Int
  lastLoggedMs : Int
  count : Int
  totalSuppressed : Int

/-- `cleanup_counter` is one for all limiters. -/
structure Limiter where
  cleanupCounter : Int
  events : Text → Option EventStats

/-- `sls_gettime_ms` at a time of `sls_gettime`. -/
def slsGettimeMs (time : Int) : Int := time.tdiv 1000

section ShouldLog

variable (l : Limits)

def Limits.cleanupOldEntries (events : Text → Option EventStats) (currentTimeMs : Int) : Text → Option EventStats :=
  let expiryTime := int64 (currentTimeMs - int64 (l.windowMs * 10))
  fun key => (events key).filter fun entry => ¬ entry.lastTimestampMs < expiryTime

/-- Every hundredth call cleans up. -/
def Limits.countCall (s : Limiter) (currentTimeMs : Int) : Limiter :=
  if 100 ≤ s.cleanupCounter + 1 then ⟨0,l.cleanupOldEntries s.events currentTimeMs⟩
  else {s with cleanupCounter := s.cleanupCounter + 1}

/-- A window that opens. -/
def EventStats.opened (currentTimeMs : Int) : EventStats := ⟨currentTimeMs,currentTimeMs,currentTimeMs,1,0⟩

/-- The entry that is kept, the `stats` put out, and whether to log. -/
def Limits.judge (currentTimeMs : Int) : Option EventStats → EventStats × EventStats × Bool
  | none => (.opened currentTimeMs,.opened currentTimeMs,true)
  | some entry =>
    if l.windowMs < int64 (currentTimeMs - entry.firstTimestampMs) then (.opened currentTimeMs,.opened currentTimeMs,true)
    else
      let entry := {entry with
        count := Timecode.int32 (entry.count + 1)
        lastTimestampMs := currentTimeMs}
      if entry.count ≤ l.threshold ∨ l.minIntervalMs ≤ int64 (currentTimeMs - entry.lastLoggedMs) then
        let entry := {entry with lastLoggedMs := currentTimeMs}
        ({entry with totalSuppressed := 0},entry,true)
      else
        let entry := {entry with totalSuppressed := Timecode.int32 (entry.totalSuppressed + 1)}
        (entry,entry,false)

def Limits.shouldLog (s : Limiter) (key : Text) (currentTimeMs : Int) : Limiter × EventStats × Bool :=
  let s := l.countCall s currentTimeMs
  let (entry,stats,logged) := l.judge currentTimeMs (s.events key)
  ({s with events := Function.update s.events key (some entry)},stats,logged)

end ShouldLog

inductive Call where
  | shouldLog (key : Text) (time : Int) (isInt64 : FitsInt64 time)
  /-- A call on another limiter. -/
  | elsewhere

structure Answer where
  key : Text
  time : Int
  logged : Bool

/-- The limiter, and its answers so far. -/
structure Run where
  limiter : Limiter
  log : List Answer

def Run.init : Run := ⟨⟨0,fun _ => none⟩,[]⟩

def Limits.limiting (l : Limits) : Machine Run Call where
  step r call :=
    match call with
    | .shouldLog key time _ =>
      let (limiter,_,logged) := l.shouldLog r.limiter key (slsGettimeMs time)
      some ⟨limiter,r.log ++ [⟨key,slsGettimeMs time,logged⟩]⟩
    | .elsewhere => some {r with limiter := {r.limiter with
        cleanupCounter := if 100 ≤ r.limiter.cleanupCounter + 1 then 0 else r.limiter.cleanupCounter + 1}}

/-- The clock does not go back. -/
def Steady (r : Run) : Call → Prop
  | .shouldLog _ time _ => ∀ answer ∈ r.log, answer.time ≤ slsGettimeMs time
  | .elsewhere => True

/-- The call overflows neither the times of the cleanup nor the count of the key's window. -/
def Limits.Safe (l : Limits) (r : Run) : Call → Prop
  | .shouldLog key time _ =>
    (100 ≤ r.limiter.cleanupCounter + 1 → FitsInt64 (l.windowMs * 10) ∧ FitsInt64 (slsGettimeMs time - l.windowMs * 10)) ∧
      ∀ entry ∈ r.limiter.events key, slsGettimeMs time - entry.firstTimestampMs ≤ l.windowMs → entry.count < 2 ^ 31 - 1
  | .elsewhere => True

instance decidableSteady (r : Run) : (call : Call) → Decidable (Steady r call)
  | .shouldLog _ time _ => inferInstanceAs (Decidable (∀ answer ∈ r.log, answer.time ≤ slsGettimeMs time))
  | .elsewhere => .isTrue trivial

instance decidableSafe (l : Limits) (r : Run) : (call : Call) → Decidable (l.Safe r call)
  | .shouldLog key time _ =>
    inferInstanceAs (Decidable ((100 ≤ r.limiter.cleanupCounter + 1 →
      FitsInt64 (l.windowMs * 10) ∧ FitsInt64 (slsGettimeMs time - l.windowMs * 10)) ∧
      ∀ entry ∈ r.limiter.events key, slsGettimeMs time - entry.firstTimestampMs ≤ l.windowMs → entry.count < 2 ^ 31 - 1))
  | .elsewhere => .isTrue trivial

/-- The calls for a key, with their answers. -/
def Run.calls (r : Run) (key : Text) : List Answer := r.log.filter fun answer => answer.key = key

abbrev Limits.split (l : Limits) (calls : List Answer) : Split Answer := TimeWindows.split Answer.time l.windowMs calls

abbrev Limits.windows (l : Limits) (calls : List Answer) : List (List Answer) := TimeWindows.windows Answer.time l.windowMs calls

abbrev Limits.Throttled (l : Limits) (window : List Answer) : Prop :=
  TimeWindows.Throttled Answer.time l.windowMs Answer.logged l.threshold l.minIntervalMs window

/-- The bound on the log in every window of every key. -/
def Limits.Bounded (l : Limits) (r : Run) : Prop :=
  ∀ key, ∀ window ∈ l.windows (r.calls key),
    ((window.filter Answer.logged).length : Int) ≤ l.threshold + l.windowMs / l.minIntervalMs ∧ l.Throttled window

/-- The entry of the running window. -/
structure EventStats.Describes (entry : EventStats) (window : List Answer) : Prop where
  first : ∃ answer ∈ window.head?, entry.firstTimestampMs = answer.time
  last : entry.firstTimestampMs ≤ entry.lastTimestampMs
  logged : ∃ answer ∈ (window.filter Answer.logged).getLast?, entry.lastLoggedMs = answer.time
  count : entry.count = window.length

/-- What the limiter knows of a key: nothing only if the running window is over. -/
structure Limits.Tracks (l : Limits) (r : Run) (key : Text) : Prop where
  throttled : ∀ window ∈ l.windows (r.calls key), l.Throttled window
  known : ∀ entry ∈ r.limiter.events key, entry.Describes (l.split (r.calls key)).running
  gone : r.limiter.events key = none → ∀ first ∈ (l.split (r.calls key)).running.head?,
    ∃ answer ∈ r.log, l.windowMs < answer.time - first.time

structure Limits.Sound (l : Limits) (r : Run) : Prop where
  clock : ∀ answer ∈ r.log, ∃ time, FitsInt64 time ∧ answer.time = slsGettimeMs time
  tracks : ∀ key, l.Tracks r key

theorem int64_small {x : Int} (low : -2 ^ 63 ≤ x) (high : x < 2 ^ 63) : int64 x = x := by
  unfold int64
  rw [Int.bmod_eq_of_le]
  · omega
  · omega

theorem slsGettimeMs_small {time : Int} (fits : FitsInt64 time) : -2 ^ 62 ≤ slsGettimeMs time ∧ slsGettimeMs time < 2 ^ 62 := by
  obtain ⟨low,high⟩ := fits
  unfold slsGettimeMs
  have rest := Int.tmod_add_tdiv_mul time 1000
  have upper := Int.tmod_lt_of_pos time (show (0 : Int) < 1000 by decide)
  have lower := Int.lt_tmod_of_pos time (show (0 : Int) < 1000 by decide)
  omega

theorem int64_times {first second : Int} (fits : FitsInt64 first) (fits' : FitsInt64 second) :
    int64 (slsGettimeMs first - slsGettimeMs second) = slsGettimeMs first - slsGettimeMs second := by
  have bound := slsGettimeMs_small fits
  have bound' := slsGettimeMs_small fits'
  exact int64_small (by omega) (by omega)

/-- In the windows that the server's configuration admits, a cleanup overflows nothing. -/
theorem Limits.safe_configured {l : Limits} (low : 0 ≤ l.windowMs) (high : l.windowMs ≤ 3600000) {r : Run} {key : Text}
    {time : Int} {fits : FitsInt64 time}
    (few : ∀ entry ∈ r.limiter.events key, slsGettimeMs time - entry.firstTimestampMs ≤ l.windowMs → entry.count < 2 ^ 31 - 1) :
    l.Safe r (.shouldLog key time fits) := by
  have bound := slsGettimeMs_small fits
  unfold Limits.Safe FitsInt64
  refine ⟨fun _ => ⟨⟨?_,?_⟩,⟨?_,?_⟩⟩,few⟩
  · omega
  · omega
  · omega
  · omega

theorem judge_none (l : Limits) (now : Int) : l.judge now none = (.opened now,.opened now,true) := rfl

theorem judge_opens (l : Limits) {now : Int} {e : EventStats} (beyond : l.windowMs < int64 (now - e.firstTimestampMs)) :
    l.judge now (some e) = (.opened now,.opened now,true) := by
  unfold Limits.judge
  dsimp only
  rw [if_pos beyond]

/-- Inside its window a call is counted, and may log if it is one of the first or comes late. -/
theorem judge_goes (l : Limits) {now : Int} {e : EventStats} (inside : ¬ l.windowMs < int64 (now - e.firstTimestampMs)) :
    ∃ next stats logged, l.judge now (some e) = (next,stats,logged) ∧ next.firstTimestampMs = e.firstTimestampMs ∧
      next.lastTimestampMs = now ∧ next.count = Timecode.int32 (e.count + 1) ∧
      next.lastLoggedMs = (if logged = true then now else e.lastLoggedMs) ∧
      (logged = true ↔ Timecode.int32 (e.count + 1) ≤ l.threshold ∨ l.minIntervalMs ≤ int64 (now - e.lastLoggedMs)) := by
  unfold Limits.judge
  dsimp only
  rw [if_neg inside]
  split
  · rename_i passes
    exact ⟨_,_,true,rfl,rfl,rfl,rfl,rfl,fun _ => passes,fun _ => rfl⟩
  · rename_i waits
    exact ⟨_,_,false,rfl,rfl,rfl,rfl,rfl,fun passes => absurd passes Bool.false_ne_true,
      fun passes => absurd passes waits⟩

section Step

variable {l : Limits} {r : Run} {key : Text} {now : Int}

theorem countCall_events (fits : 100 ≤ r.limiter.cleanupCounter + 1 → FitsInt64 (l.windowMs * 10) ∧ FitsInt64 (now - l.windowMs * 10))
    (ordered : ∀ e ∈ r.limiter.events key, e.firstTimestampMs ≤ e.lastTimestampMs ∧ e.firstTimestampMs ≤ now) :
    (l.countCall r.limiter now).events key = r.limiter.events key ∨
      (l.countCall r.limiter now).events key = none ∧
        ∃ e ∈ r.limiter.events key, l.windowMs < now - e.firstTimestampMs := by
  unfold Limits.countCall
  by_cases hundredth : 100 ≤ r.limiter.cleanupCounter + 1
  · obtain ⟨product,difference⟩ := fits hundredth
    rw [if_pos hundredth]
    unfold Limits.cleanupOldEntries
    dsimp only
    rw [int64_small product.1 product.2,int64_small difference.1 difference.2]
    cases found : r.limiter.events key with
    | none => exact Or.inl rfl
    | some e =>
      obtain ⟨order,past⟩ := ordered e found
      by_cases old : e.lastTimestampMs < now - l.windowMs * 10
      · refine Or.inr ⟨?_,e,rfl,by omega⟩
        simp [Option.filter,old]
      · refine Or.inl ?_
        simp [Option.filter,old]
  · rw [if_neg hundredth]
    exact Or.inl rfl

theorem Run.calls_own (limiter : Limiter) (logged : Bool) :
    (Run.mk limiter (r.log ++ [⟨key,now,logged⟩])).calls key = r.calls key ++ [⟨key,now,logged⟩] := by
  unfold Run.calls
  rw [List.filter_append]
  simp

theorem Run.calls_other (limiter : Limiter) (logged : Bool) {other : Text} (apart : other ≠ key) :
    (Run.mk limiter (r.log ++ [⟨key,now,logged⟩])).calls other = r.calls other := by
  unfold Run.calls
  rw [List.filter_append]
  simp [apart.symm]

theorem running_logged {answer : Answer} (running : answer ∈ (l.split (r.calls key)).running) : answer ∈ r.log :=
  (List.mem_filter.mp (running_mem running)).1

theorem Limits.Tracks.opened (tracks : l.Tracks r key) {e : EventStats} (known : e ∈ r.limiter.events key) {first : Answer}
    (running : first ∈ (l.split (r.calls key)).running.head?) : e.firstTimestampMs = first.time := by
  obtain ⟨first',running',opened⟩ := (tracks.known e known).first
  cases Option.some.inj (running.symm.trans running')
  exact opened

theorem Limits.Tracks.past (tracks : l.Tracks r key) (steady : ∀ answer ∈ r.log, answer.time ≤ now) {e : EventStats}
    (known : e ∈ r.limiter.events key) : e.firstTimestampMs ≤ e.lastTimestampMs ∧ e.firstTimestampMs ≤ now := by
  obtain ⟨⟨first,running,same⟩,last,_,_⟩ := tracks.known e known
  refine ⟨last,?_⟩
  rw [same]
  exact steady first (running_logged (List.mem_of_mem_head? running))

theorem Limits.Tracks.opens (tracks : l.Tracks r key) (positive : 1 ≤ l.threshold)
    (beyond : ∀ first ∈ (l.split (r.calls key)).running.head?, l.windowMs < now - first.time) {limiter : Limiter}
    (stored : limiter.events key = some (.opened now)) :
    l.Tracks ⟨limiter,r.log ++ [⟨key,now,true⟩]⟩ key := by
  obtain ⟨running,windows⟩ := split_opens (a := (⟨key,now,true⟩ : Answer)) beyond
  have calls : (Run.mk limiter (r.log ++ [⟨key,now,true⟩])).calls key = r.calls key ++ [⟨key,now,true⟩] :=
    Run.calls_own limiter true
  constructor
  · intro window member
    rw [calls] at member
    obtain before | rfl := windows window member
    · exact tracks.throttled window before
    · exact Throttled.single rfl positive
  · intro e known
    cases stored.symm.trans known
    rw [calls]
    unfold Limits.split
    rw [running]
    exact ⟨⟨_,rfl,rfl⟩,Int.le_refl now,⟨_,rfl,rfl⟩,rfl⟩
  · intro nothing
    rw [stored] at nothing
    cases nothing

theorem Limits.Tracks.goes (tracks : l.Tracks r key) (steady : ∀ answer ∈ r.log, answer.time ≤ now) {e next : EventStats}
    {logged : Bool} (known : e ∈ r.limiter.events key) (inside : now - e.firstTimestampMs ≤ l.windowMs)
    (few : e.count < 2 ^ 31 - 1) (first : next.firstTimestampMs = e.firstTimestampMs) (last : next.lastTimestampMs = now)
    (count : next.count = Timecode.int32 (e.count + 1))
    (lastLogged : next.lastLoggedMs = if logged = true then now else e.lastLoggedMs)
    (passes : logged = true → Timecode.int32 (e.count + 1) ≤ l.threshold ∨ l.minIntervalMs ≤ now - e.lastLoggedMs)
    {limiter : Limiter} (stored : limiter.events key = some next) :
    l.Tracks ⟨limiter,r.log ++ [⟨key,now,logged⟩]⟩ key := by
  have past := (tracks.past steady known).2
  obtain ⟨⟨head,running,opened⟩,_,⟨b,logs,latest⟩,counted⟩ := tracks.known e known
  have calls : (Run.mk limiter (r.log ++ [⟨key,now,logged⟩])).calls key = r.calls key ++ [⟨key,now,logged⟩] :=
    Run.calls_own limiter logged
  cases window : (l.split (r.calls key)).running with
  | nil =>
    rw [window] at running
    cases running
  | cons _ rest =>
    rw [window] at running logs counted
    cases running
    have counts : Timecode.int32 (e.count + 1) = (head::rest).length + 1 := by
      rw [Timecode.int32_small (by omega) (by omega),counted]
    rw [counts] at count passes
    rw [opened] at inside past
    obtain ⟨longer,windows⟩ := split_goes (a := (⟨key,now,logged⟩ : Answer)) window inside
    have throttled : l.Throttled (head::rest) := tracks.throttled _ (window ▸ List.mem_append_right _ (List.mem_singleton_self _))
    constructor
    · intro window' member
      rw [calls] at member
      obtain before | rfl := windows window' member
      · exact tracks.throttled window' before
      · refine throttled.snoc past inside fun many passed => ⟨b,logs,?_⟩
        have late := (passes passed).resolve_left (by omega)
        rw [latest] at late
        exact late
    · intro entry known'
      cases stored.symm.trans known'
      rw [calls]
      unfold Limits.split
      rw [longer]
      refine ⟨⟨head,rfl,first.trans opened⟩,?_,?_,?_⟩
      · rw [first,last,opened]
        exact past
      · rw [List.filter_append]
        cases logged with
        | true =>
          have logs' : [(⟨key,now,true⟩ : Answer)].filter Answer.logged = [⟨key,now,true⟩] := rfl
          rw [logs',List.getLast?_concat]
          exact ⟨_,rfl,lastLogged⟩
        | false =>
          have nothing : [(⟨key,now,false⟩ : Answer)].filter Answer.logged = [] := rfl
          rw [nothing,List.append_nil]
          exact ⟨b,logs,lastLogged.trans latest⟩
      · rw [count,List.length_append]
        rfl
    · intro nothing
      rw [stored] at nothing
      cases nothing

theorem shouldLog_judged {s : Limiter} {known : Option EventStats} {entry stats : EventStats} {logged : Bool}
    (kept : (l.countCall s now).events key = known) (judged : l.judge now known = (entry,stats,logged)) :
    l.shouldLog s key now =
      ({l.countCall s now with events := Function.update (l.countCall s now).events key (some entry)},stats,logged) := by
  unfold Limits.shouldLog
  dsimp only
  rw [kept,judged]

end Step

section Run

variable {l : Limits} {r : Run} {key : Text} {time : Int} {fits : FitsInt64 time}

theorem Limits.Sound.elapsed (sound : l.Sound r) (fits : FitsInt64 time) {e : EventStats} (known : e ∈ r.limiter.events key) :
    int64 (slsGettimeMs time - e.firstTimestampMs) = slsGettimeMs time - e.firstTimestampMs ∧
      int64 (slsGettimeMs time - e.lastLoggedMs) = slsGettimeMs time - e.lastLoggedMs := by
  obtain ⟨⟨first,running,opened⟩,_,⟨b,logs,latest⟩,_⟩ := (sound.tracks key).known e known
  have among : b ∈ (l.split (r.calls key)).running := (List.mem_filter.mp (List.mem_of_mem_getLast? logs)).1
  constructor
  · obtain ⟨time',fits',firstAt⟩ := sound.clock first (running_logged (List.mem_of_mem_head? running))
    rw [opened,firstAt,int64_times fits fits']
  · obtain ⟨time',fits',loggedAt⟩ := sound.clock b (running_logged among)
    rw [latest,loggedAt,int64_times fits fits']

theorem Limits.Sound.own (sound : l.Sound r) (positive : 1 ≤ l.threshold) (steady : Steady r (.shouldLog key time fits))
    (safe : l.Safe r (.shouldLog key time fits)) :
    l.Tracks ⟨(l.shouldLog r.limiter key (slsGettimeMs time)).1,
      r.log ++ [⟨key,slsGettimeMs time,(l.shouldLog r.limiter key (slsGettimeMs time)).2.2⟩]⟩ key := by
  have tracks := sound.tracks key
  have stored : ∀ s : Limiter, ∀ entry : EventStats, (Function.update s.events key (some entry)) key = some entry :=
    fun s entry => Function.update_self ..
  obtain same | ⟨removed,e,known,beyond⟩ := countCall_events safe.1 fun e known => tracks.past steady known
  · cases found : r.limiter.events key with
    | none =>
      rw [shouldLog_judged (same.trans found) (judge_none l _)]
      refine tracks.opens positive (fun first running => ?_) (stored ..)
      obtain ⟨answer,logged,late⟩ := tracks.gone found first running
      have before := steady answer logged
      omega
    | some e =>
      obtain ⟨elapsed,sinceLogged⟩ := sound.elapsed fits found
      by_cases beyond : l.windowMs < slsGettimeMs time - e.firstTimestampMs
      · have judged : l.judge (slsGettimeMs time) (some e) = (.opened (slsGettimeMs time),.opened (slsGettimeMs time),true) := by
          refine judge_opens l ?_
          rw [elapsed]
          exact beyond
        rw [shouldLog_judged (same.trans found) judged]
        refine tracks.opens positive (fun first running => ?_) (stored ..)
        rw [← tracks.opened found running]
        exact beyond
      · have inside : ¬ l.windowMs < int64 (slsGettimeMs time - e.firstTimestampMs) := by
          rw [elapsed]
          exact beyond
        obtain ⟨next,stats,logged,judged,first,last,count,lastLogged,passes⟩ := judge_goes l inside
        rw [sinceLogged] at passes
        rw [shouldLog_judged (same.trans found) judged]
        have within := Int.not_lt.mp beyond
        exact tracks.goes steady found within (safe.2 e found within) first last count lastLogged passes.mp (stored ..)
  · rw [shouldLog_judged removed (judge_none l _)]
    refine tracks.opens positive (fun first running => ?_) (stored ..)
    rw [← tracks.opened known running]
    exact beyond

theorem Limits.Sound.other (sound : l.Sound r) (steady : Steady r (.shouldLog key time fits))
    (safe : l.Safe r (.shouldLog key time fits)) {other : Text} (apart : other ≠ key) :
    l.Tracks ⟨(l.shouldLog r.limiter key (slsGettimeMs time)).1,
      r.log ++ [⟨key,slsGettimeMs time,(l.shouldLog r.limiter key (slsGettimeMs time)).2.2⟩]⟩ other := by
  have tracks := sound.tracks other
  obtain ⟨entry,stats,logged,judged⟩ : ∃ entry stats logged,
      l.judge (slsGettimeMs time) ((l.countCall r.limiter (slsGettimeMs time)).events key) = (entry,stats,logged) := ⟨_,_,_,rfl⟩
  rw [shouldLog_judged rfl judged]
  have calls : ∀ limiter, (Run.mk limiter (r.log ++ [⟨key,slsGettimeMs time,logged⟩])).calls other = r.calls other :=
    fun limiter => Run.calls_other limiter logged apart
  have kept : ∀ events : Text → Option EventStats, Function.update events key (some entry) other = events other :=
    fun events => Function.update_of_ne apart ..
  have left := countCall_events safe.1 fun e found => tracks.past steady found
  constructor
  · rw [calls]
    exact tracks.throttled
  · intro e found
    rw [calls]
    dsimp only at found
    rw [kept] at found
    obtain same | ⟨removed,_⟩ := left
    · rw [same] at found
      exact tracks.known e found
    · rw [removed] at found
      cases found
  · intro nothing first running
    rw [calls] at running
    dsimp only at nothing
    rw [kept] at nothing
    obtain same | ⟨_,e,found,beyond⟩ := left
    · rw [same] at nothing
      obtain ⟨answer,logged,late⟩ := tracks.gone nothing first running
      exact ⟨answer,List.mem_append_left _ logged,late⟩
    · rw [tracks.opened found running] at beyond
      exact ⟨_,List.mem_append_right _ (List.mem_singleton_self _),beyond⟩

theorem Limits.limiting_keeps (l : Limits) (positive : 1 ≤ l.threshold) :
    l.limiting.Keeps (fun r call => Steady r call ∧ l.Safe r call) l.Sound := by
  intro r call next sound ⟨steady,safe⟩ stepped
  cases call with
  | shouldLog key time fits =>
    cases Option.some.inj stepped
    constructor
    · intro answer member
      obtain before | last := List.mem_append.mp member
      · exact sound.clock answer before
      · rw [List.mem_singleton.mp last]
        exact ⟨time,fits,rfl⟩
    · intro other
      by_cases own : other = key
      · subst own
        exact sound.own positive steady safe
      · exact sound.other steady safe own
  | elsewhere =>
    cases Option.some.inj stepped
    exact ⟨sound.clock,fun key => ⟨(sound.tracks key).throttled,(sound.tracks key).known,(sound.tracks key).gone⟩⟩

theorem Limits.init_sound (l : Limits) : l.Sound .init where
  clock := fun answer none => nomatch none
  tracks := fun key => {
    throttled := by
      intro window member
      cases List.mem_singleton.mp member
      exact .nil
    known := fun e none => nomatch none
    gone := fun _ first none => nomatch none }

end Run

/-- A window of negative length lasts for one call, which logs. -/
theorem log_limiter_bounds (l : Limits) (positive : 1 ≤ l.threshold) (wide : 1 ≤ l.minIntervalMs)
    (room : 1 ≤ l.threshold + l.windowMs / l.minIntervalMs) (calls : List Call) (r : Run)
    (admitted : l.limiting.Admits (fun r call => Steady r call ∧ l.Safe r call) .init calls)
    (ran : l.limiting.run .init calls = some r) : l.Bounded r := by
  have sound : l.Sound r := (l.limiting_keeps positive).run l.init_sound admitted ran
  intro key window member
  have throttled := (sound.tracks key).throttled window member
  exact ⟨throttled.passes_le positive wide room,throttled⟩

/-- Calls for two keys; the window of the first lasts until 80 ms. -/
def retries : List Call :=
  [.shouldLog [97] 0 (by decide),.shouldLog [97] 1000 (by decide),.elsewhere,.shouldLog [97] 2000 (by decide),
    .shouldLog [98] 2000 (by decide),.shouldLog [97] 40000 (by decide),.shouldLog [97] 101000 (by decide)]

theorem retries_suppressed : ∃ r, (⟨80,2,30⟩ : Limits).limiting.run .init retries = some r ∧
    r.log.map Answer.logged = [true,true,false,true,true,true] ∧ (⟨80,2,30⟩ : Limits).Bounded r :=
  ⟨_,rfl,rfl,log_limiter_bounds ⟨80,2,30⟩ (by decide) (by decide) (by decide) retries _ (by decide) rfl⟩

section Burst

/-- `k` calls for a key at time 0, which are counted modulo `2 ^ 32`. -/
structure Burst (key : Text) (k : Nat) (r : Run) : Prop where
  entry : ∃ e ∈ r.limiter.events key, e.firstTimestampMs = 0 ∧ e.lastTimestampMs = 0 ∧ e.lastLoggedMs = 0 ∧
    e.count = Timecode.int32 k
  log : r.log = (List.range k).map fun i => ⟨key,0,decide (Timecode.int32 (i + 1) ≤ Limits.default.threshold)⟩

def burstCall (key : Text) : Call := .shouldLog key 0 (by decide)

variable {key : Text} {k : Nat} {r : Run}

theorem Burst.times (burst : Burst key k r) : ∀ answer ∈ r.log, answer.key = key ∧ answer.time = 0 := by
  intro answer member
  rw [burst.log] at member
  obtain ⟨i,_,rfl⟩ := List.mem_map.mp member
  exact ⟨rfl,rfl⟩

theorem Burst.steady (burst : Burst key k r) : Steady r (burstCall key) := by
  intro answer member
  rw [(burst.times answer member).2]
  decide

theorem Burst.step (burst : Burst key k r) :
    ∃ next, Limits.default.limiting.step r (burstCall key) = some next ∧ Burst key (k + 1) next := by
  obtain ⟨e,found,opened,last,logged,counted⟩ := burst.entry
  have inside : ¬ Limits.default.windowMs < int64 (0 - e.firstTimestampMs) := by
    rw [opened]
    decide
  have kept : (Limits.default.countCall r.limiter 0).events key = some e := by
    have fits : 100 ≤ r.limiter.cleanupCounter + 1 →
        FitsInt64 (Limits.default.windowMs * 10) ∧ FitsInt64 (0 - Limits.default.windowMs * 10) := fun _ => by decide
    have ordered : ∀ e ∈ r.limiter.events key, e.firstTimestampMs ≤ e.lastTimestampMs ∧ e.firstTimestampMs ≤ 0 := by
      intro e' found'
      cases found.symm.trans found'
      omega
    obtain same | ⟨_,e',found',beyond⟩ := countCall_events fits ordered
    · rw [same,found]
    · cases found.symm.trans found'
      rw [opened] at beyond
      exact absurd beyond (by decide)
  obtain ⟨next,stats,logs,judged,opened',last',count,logged',passes⟩ := judge_goes .default inside
  have counts : Timecode.int32 (e.count + 1) = Timecode.int32 (k + 1) := by
    rw [counted]
    exact Int.bmod_add_bmod
  have never : ¬ Limits.default.minIntervalMs ≤ int64 (0 - e.lastLoggedMs) := by
    rw [logged]
    decide
  have answers : logs = decide (Timecode.int32 (k + 1) ≤ Limits.default.threshold) := by
    rw [counts] at passes
    rw [Bool.eq_iff_iff,decide_eq_true_iff]
    exact passes.trans (or_iff_left never)
  have called := shouldLog_judged kept judged
  let limiter := Limits.default.countCall r.limiter 0
  refine ⟨⟨{limiter with events := Function.update limiter.events key (some next)},r.log ++ [⟨key,0,logs⟩]⟩,?_,?_,?_⟩
  · unfold Limits.limiting burstCall
    dsimp only
    rw [show slsGettimeMs 0 = 0 from rfl,called]
  · refine ⟨next,Function.update_self ..,opened'.trans opened,last',?_,?_⟩
    · rw [logged',logged]
      split
      · rfl
      · rfl
    · rw [count,counts]
      rfl
  · rw [burst.log,List.range_succ,List.map_append,answers]
    rfl

theorem Burst.run (burst : Burst key k r) (m : Nat) :
    ∃ final, Limits.default.limiting.run r (List.replicate m (burstCall key)) = some final ∧ Burst key (k + m) final ∧
      Limits.default.limiting.Admits Steady r (List.replicate m (burstCall key)) := by
  induction m generalizing k r with
  | zero => exact ⟨r,rfl,burst,trivial⟩
  | succ m ih =>
    obtain ⟨next,stepped,later⟩ := burst.step
    obtain ⟨final,ran,last,admitted⟩ := ih later
    rw [Nat.add_right_comm] at last
    refine ⟨final,?_,last,burst.steady,fun next' stepped' => ?_⟩
    · exact Option.bind_eq_some_iff.mpr ⟨next,stepped,ran⟩
    · cases stepped.symm.trans stepped'
      exact admitted

theorem burst_opens (key : Text) :
    ∃ next, Limits.default.limiting.step .init (burstCall key) = some next ∧ Burst key 1 next := by
  refine ⟨_,rfl,?_,rfl⟩
  exact ⟨_,Function.update_self ..,rfl,rfl,rfl,rfl⟩

/-- The call whose count has wrapped logs at once. -/
theorem Burst.unbounded (burst : Burst key (k + 1) r) (many : 5 ≤ k) (wrapped : Timecode.int32 (k + 1) ≤ Limits.default.threshold) :
    ¬ Limits.default.Bounded r := by
  intro bounded
  have own : r.calls key = r.log :=
    List.filter_eq_self.mpr fun answer member => decide_eq_true (burst.times answer member).1
  have whole : (Limits.default.split r.log).running = r.log := by
    refine running_whole fun first among answer member => ?_
    rw [(burst.times answer member).2,(burst.times first (List.mem_of_mem_head? among)).2]
    decide
  have member : r.log ∈ Limits.default.windows (r.calls key) := by
    rw [own]
    exact List.mem_append_right _ (List.mem_singleton.mpr whole.symm)
  have throttled := (bounded key r.log member).2
  have parts := burst.log
  rw [List.range_succ,List.map_append,List.map_singleton,decide_eq_true wrapped] at parts
  have behind : Limits.default.threshold ≤ (k : Int) := by
    show (5 : Int) ≤ k
    omega
  obtain ⟨b,last,apart⟩ := throttled.spaced _ _ [] parts
    (by rw [List.length_map,List.length_range]; exact behind) rfl
  have before : b ∈ r.log := by
    rw [parts]
    exact List.mem_append_left _ (List.mem_filter.mp (List.mem_of_mem_getLast? last)).1
  rw [(burst.times b before).2] at apart
  have late : Limits.default.minIntervalMs ≤ 0 - 0 := apart
  exact absurd late (by decide)

end Burst

/-- `2 ^ 31` calls for one key in one window. -/
theorem wrapped_count_logs : ¬ ∀ calls r, Limits.default.limiting.Admits Steady .init calls →
    Limits.default.limiting.run .init calls = some r → Limits.default.Bounded r := by
  intro claim
  obtain ⟨first,stepped,opened⟩ := burst_opens [97]
  obtain ⟨final,ran,burst,admitted⟩ := opened.run (2 ^ 31 - 1)
  have many : 1 + (2 ^ 31 - 1) = 2 ^ 31 - 1 + 1 := Nat.add_comm ..
  rw [many] at burst
  refine burst.unbounded (by omega) (by decide) (claim (burstCall [97]::List.replicate (2 ^ 31 - 1) (burstCall [97])) final ?_ ?_)
  · refine ⟨fun answer none => (nomatch none),fun next stepped' => ?_⟩
    cases stepped.symm.trans stepped'
    exact admitted
  · exact Option.bind_eq_some_iff.mpr ⟨first,stepped,ran⟩

end SrtLiveServer.LogRateLimiter
