import Mathlib.Tactic.Ring
import SrtLiveServer.SlidingWindow

/-! The input limiter of a publisher, `CSLSBitrateLimit`. It keeps the data points of
a sliding window in a queue that it cleans once a second, takes the rate over the
queue, and asks for a disconnect once that rate has exceeded the spike limit at every
call for the violation timeout. -/
namespace SrtLiveServer.BitrateLimit
open SlidingWindow

structure DataPoint where
  timestampMs : Int
  bytes : Nat
deriving DecidableEq

inductive BitrateCheckResult where
  | ok
  | violation
  | disconnect
deriving DecidableEq

/-- A `float` multiplier: whether it is below 1, and what it makes of a limit. -/
structure SpikeTolerance where
  belowOne : Bool
  apply : Int → Int

structure Limiter where
  maxBitrateKbps : Int
  windowMs : Int
  spikeLimitKbps : Int
  violationThresholdMs : Int
  dataWindow : List DataPoint
  totalBytesInWindow : Int
  inViolation : Bool
  violationStartTime : Int
  lastViolationLogTime : Int
  totalBytesReceived : Int
  lastCleanupTime : Int
deriving DecidableEq

/-- `none` where the parameters are refused. -/
def init (maxBitrateKbps violationTimeoutSeconds windowMs : Int) (spikeTolerance : SpikeTolerance) (now : Int) :
    Option Limiter :=
  if maxBitrateKbps < 0 ∨ violationTimeoutSeconds ≤ 0 ∨ windowMs ≤ 0 ∨ spikeTolerance.belowOne = true then none
  else some {
    maxBitrateKbps := maxBitrateKbps
    windowMs := windowMs
    spikeLimitKbps := spikeTolerance.apply maxBitrateKbps
    violationThresholdMs := violationTimeoutSeconds * 1000
    dataWindow := []
    totalBytesInWindow := 0
    inViolation := false
    violationStartTime := 0
    lastViolationLogTime := 0
    totalBytesReceived := 0
    lastCleanupTime := now}

def dropOld (cutoffTime : Int) : List DataPoint → Int → List DataPoint × Int
  | [],total => ([],total)
  | front::rest,total =>
    if front.timestampMs < cutoffTime then dropOld cutoffTime rest (total - front.bytes) else (front::rest,total)

def Limiter.cleanupOldData (l : Limiter) (currentTimeMs : Int) : Limiter :=
  let kept := dropOld (currentTimeMs - l.windowMs) l.dataWindow l.totalBytesInWindow
  {l with dataWindow := kept.1,totalBytesInWindow := kept.2}

def Limiter.record (l : Limiter) (dataBytes : Nat) (currentTimeMs : Int) : Limiter :=
  {l with
    totalBytesReceived := l.totalBytesReceived + dataBytes
    dataWindow := l.dataWindow ++ [⟨currentTimeMs,dataBytes⟩]
    totalBytesInWindow := l.totalBytesInWindow + dataBytes}

def Limiter.cleanPeriodically (l : Limiter) (currentTimeMs : Int) : Limiter :=
  if 1000 < currentTimeMs - l.lastCleanupTime then {l.cleanupOldData currentTimeMs with lastCleanupTime := currentTimeMs}
  else l

/-- The age of the oldest queued point, at least one second, while that is less than
the window. -/
def effectiveWindowMs (windowMs currentTimeMs : Int) : List DataPoint → Int
  | [] => windowMs
  | front::_ =>
    let actualWindowMs := currentTimeMs - front.timestampMs
    if actualWindowMs < windowMs then max 1000 actualWindowMs else windowMs

/-- The product is an `int64_t` and the quotient is cut down to an `int`. -/
def bitrateKbps (totalBytes effectiveWindowMs : Int) : Int :=
  (((totalBytes * 8 * 1000).bmod (2 ^ 64)).tdiv effectiveWindowMs |>.tdiv 1000).bmod (2 ^ 32)

def Limiter.exceedsSpikeLimit (l : Limiter) (currentTimeMs : Int) : Bool :=
  l.spikeLimitKbps < bitrateKbps l.totalBytesInWindow (effectiveWindowMs l.windowMs currentTimeMs l.dataWindow)

def Limiter.noteViolation (l : Limiter) (currentTimeMs : Int) : Limiter :=
  if l.inViolation = false then
    {l with inViolation := true,violationStartTime := currentTimeMs,lastViolationLogTime := currentTimeMs}
  else if 2000 < currentTimeMs - l.lastViolationLogTime then {l with lastViolationLogTime := currentTimeMs}
  else l

def Limiter.endViolation (l : Limiter) : Limiter :=
  if l.inViolation then {l with inViolation := false,violationStartTime := 0} else l

def Limiter.checkDataBitrate (l : Limiter) (dataBytes : Nat) (currentTimeMs : Int) : Limiter × BitrateCheckResult :=
  let l := l.record dataBytes currentTimeMs
  if l.maxBitrateKbps = 0 then (l.cleanupOldData currentTimeMs,.ok)
  else
    let l := l.cleanPeriodically currentTimeMs
    if l.exceedsSpikeLimit currentTimeMs then
      let l := l.noteViolation currentTimeMs
      if l.violationThresholdMs ≤ currentTimeMs - l.violationStartTime then (l,.disconnect) else (l,.violation)
    else (l.endViolation,.ok)

/-- The limiter after these calls. -/
def Limiter.after (l : Limiter) (calls : List DataPoint) : Limiter :=
  calls.foldl (fun l call => (l.checkDataBitrate call.bytes call.timestampMs).1) l

/-- What `call` returns after the calls of `past`. -/
def Limiter.returned (l : Limiter) (past : List DataPoint) (call : DataPoint) : BitrateCheckResult :=
  ((l.after past).checkDataBitrate call.bytes call.timestampMs).2

theorem Limiter.after_snoc (l : Limiter) (past : List DataPoint) (call : DataPoint) :
    l.after (past ++ [call]) = ((l.after past).checkDataBitrate call.bytes call.timestampMs).1 := by
  unfold Limiter.after
  rw [List.foldl_append]
  rfl

section History

/-! The limiter's measure in terms of the calls alone. -/

def bytesOf (points : List DataPoint) : Nat := (points.map DataPoint.bytes).sum

/-- The points in the queue after these calls. -/
def Limiter.held (l : Limiter) (calls : List DataPoint) : List DataPoint :=
  (Lazy.after DataPoint.timestampMs 1000 l.windowMs l.lastCleanupTime calls).queue

/-- At `call` the points held average to more than the spike limit, over the age of the
oldest but at least a second and at most the window. -/
def Limiter.Exceeds (l : Limiter) (past : List DataPoint) (call : DataPoint) : Prop :=
  let held := l.held (past ++ [call])
  l.spikeLimitKbps < bitrateKbps (bytesOf held) (effectiveWindowMs l.windowMs call.timestampMs held)

/-- Every call from index `start` on exceeds the spike limit. -/
def Limiter.Sustained (l : Limiter) (calls : List DataPoint) (start : Nat) : Prop :=
  ∀ past call, past ++ [call] <+: calls → start ≤ past.length → l.Exceeds past call

end History

section Tracks

variable {l s : Limiter} {calls past : List DataPoint} {call : DataPoint}

theorem dropOld_eq (cutoffTime : Int) (points : List DataPoint) (total : Int) :
    dropOld cutoffTime points total =
      (trim DataPoint.timestampMs cutoffTime points,
        total - bytesOf points + bytesOf (trim DataPoint.timestampMs cutoffTime points)) := by
  induction points generalizing total with
  | nil => simp [dropOld,trim,bytesOf]
  | cons front rest ih =>
    unfold dropOld trim
    rw [List.dropWhile_cons]
    by_cases old : front.timestampMs < cutoffTime
    · rw [if_pos old,if_pos (by simpa using old),ih]
      simp only [bytesOf,trim,List.map_cons,List.sum_cons,Prod.mk.injEq,true_and]
      omega
    · rw [if_neg old,if_neg (by simpa using old)]
      simp

theorem bytesOf_snoc (points : List DataPoint) (point : DataPoint) : bytesOf (points ++ [point]) = bytesOf points + point.bytes := by
  simp [bytesOf]

/-- The queue and its total are what the calls so far leave of them. -/
structure Limiter.Queued (l : Limiter) (calls : List DataPoint) (s : Limiter) : Prop where
  config : s.maxBitrateKbps = l.maxBitrateKbps ∧ s.windowMs = l.windowMs ∧ s.spikeLimitKbps = l.spikeLimitKbps ∧
    s.violationThresholdMs = l.violationThresholdMs
  lazily : (⟨s.dataWindow,s.lastCleanupTime⟩ : Lazy DataPoint) =
    Lazy.after DataPoint.timestampMs 1000 l.windowMs l.lastCleanupTime calls
  total : s.totalBytesInWindow = bytesOf s.dataWindow

/-- The violation under way began at the first call of the longest stretch of exceeding
calls that reaches up to now. -/
structure Limiter.Tracks (l : Limiter) (calls : List DataPoint) (s : Limiter) : Prop extends l.Queued calls s where
  calm : s.inViolation = false → ∀ start < calls.length, ¬ l.Sustained calls start
  running : s.inViolation = true → ∃ start first, calls[start]? = some first ∧ s.violationStartTime = first.timestampMs ∧
    l.Sustained calls start ∧ ∀ other, l.Sustained calls other → start ≤ other

theorem Limiter.Queued.push (queued : l.Queued past s) (call : DataPoint) :
    l.Queued (past ++ [call]) ((s.record call.bytes call.timestampMs).cleanPeriodically call.timestampMs) := by
  obtain ⟨⟨limit,window,spike,threshold⟩,lazily,total⟩ := queued
  have pushed := congrArg (fun w => Lazy.push DataPoint.timestampMs 1000 l.windowMs w call) lazily
  rw [← Lazy.after_snoc,Lazy.push] at pushed
  dsimp only at pushed
  have recorded : (s.record call.bytes call.timestampMs).totalBytesInWindow = bytesOf (s.dataWindow ++ [call]) := by
    rw [bytesOf_snoc]
    show s.totalBytesInWindow + _ = _
    rw [total]
    push_cast
    rfl
  unfold Limiter.cleanPeriodically
  split
  · rename_i due
    have passed : 1000 < call.timestampMs - s.lastCleanupTime := due
    refine ⟨⟨limit,window,spike,threshold⟩,?_,?_⟩
    · rw [if_pos passed] at pushed
      rw [← pushed,← window]
      simp only [Limiter.cleanupOldData,dropOld_eq]
      rfl
    · simp only [Limiter.cleanupOldData,dropOld_eq]
      rw [recorded]
      show bytesOf (s.dataWindow ++ [call]) - (bytesOf (s.dataWindow ++ [call]) : Int) + _ = _
      omega
  · rename_i early
    have recent : ¬ 1000 < call.timestampMs - s.lastCleanupTime := early
    rw [if_neg recent] at pushed
    exact ⟨⟨limit,window,spike,threshold⟩,pushed,recorded⟩

theorem Limiter.Queued.exceeds_iff (queued : l.Queued (past ++ [call]) s) :
    s.exceedsSpikeLimit call.timestampMs = true ↔ l.Exceeds past call := by
  obtain ⟨⟨_,window,spike,_⟩,lazily,total⟩ := queued
  have held : l.held (past ++ [call]) = s.dataWindow := (congrArg Lazy.queue lazily).symm
  unfold Limiter.exceedsSpikeLimit Limiter.Exceeds
  rw [held,total,window,spike,decide_eq_true_iff]

theorem Limiter.sustained_snoc {start : Nat} :
    l.Sustained (past ++ [call]) start ↔ l.Sustained past start ∧ (start ≤ past.length → l.Exceeds past call) := by
  constructor
  · intro sustained
    refine ⟨fun prior other inside later => sustained prior other (inside.trans (List.prefix_append _ _)) later,?_⟩
    exact sustained past call (List.prefix_refl _)
  · rintro ⟨earlier,last⟩ prior other inside later
    rcases List.prefix_concat_iff.mp inside with whole | part
    · obtain ⟨rfl,single⟩ := List.append_inj' whole rfl
      cases single
      exact last later
    · exact earlier prior other part later

theorem Limiter.sustained_length : l.Sustained past past.length := by
  intro prior other inside later
  have shorter := inside.length_le
  rw [List.length_append,List.length_singleton] at shorter
  omega

theorem Limiter.noteViolation_kept (s : Limiter) (now : Int) :
    (s.noteViolation now).inViolation = true ∧
      ((s.noteViolation now).violationStartTime = if s.inViolation then s.violationStartTime else now) ∧
      ∀ calls, l.Queued calls s → l.Queued calls (s.noteViolation now) := by
  unfold Limiter.noteViolation
  cases violating : s.inViolation with
  | false => exact ⟨rfl,rfl,fun _ queued => ⟨queued.config,queued.lazily,queued.total⟩⟩
  | true =>
    rw [if_neg Bool.noConfusion]
    split
    · exact ⟨rfl,rfl,fun _ queued => ⟨queued.config,queued.lazily,queued.total⟩⟩
    · exact ⟨violating,rfl,fun _ queued => queued⟩

theorem Limiter.endViolation_kept (s : Limiter) :
    s.endViolation.inViolation = false ∧ ∀ calls, l.Queued calls s → l.Queued calls s.endViolation := by
  unfold Limiter.endViolation
  split
  · exact ⟨rfl,fun _ queued => ⟨queued.config,queued.lazily,queued.total⟩⟩
  · rename_i calm
    exact ⟨by simpa using calm,fun _ queued => queued⟩

theorem Limiter.cleanPeriodically_violation (s : Limiter) (bytes : Nat) (now : Int) :
    ((s.record bytes now).cleanPeriodically now).inViolation = s.inViolation ∧
      ((s.record bytes now).cleanPeriodically now).violationStartTime = s.violationStartTime := by
  unfold Limiter.cleanPeriodically
  split <;> exact ⟨rfl,rfl⟩

/-- A call keeps the account of the violation, and asks for a disconnect exactly if one
is under way and has lasted for the threshold. -/
theorem Limiter.Tracks.check (tracks : l.Tracks past s) (limited : l.maxBitrateKbps ≠ 0) (call : DataPoint) :
    let next := s.checkDataBitrate call.bytes call.timestampMs
    l.Tracks (past ++ [call]) next.1 ∧
      (next.2 = .disconnect ↔
        next.1.inViolation = true ∧ l.violationThresholdMs ≤ call.timestampMs - next.1.violationStartTime) := by
  have queued := tracks.toQueued.push call
  obtain ⟨violating,began⟩ := s.cleanPeriodically_violation call.bytes call.timestampMs
  have limit : (s.record call.bytes call.timestampMs).maxBitrateKbps ≠ 0 := by
    show s.maxBitrateKbps ≠ 0
    rw [tracks.config.1]
    exact limited
  unfold Limiter.checkDataBitrate
  dsimp only
  rw [if_neg limit]
  generalize (s.record call.bytes call.timestampMs).cleanPeriodically call.timestampMs = cleaned at queued violating began
  split
  · rename_i exceeding
    have exceeds : l.Exceeds past call := queued.exceeds_iff.mp exceeding
    obtain ⟨marked,start,kept⟩ := cleaned.noteViolation_kept (l := l) call.timestampMs
    have queued := kept _ queued
    rw [violating,began] at start
    generalize cleaned.noteViolation call.timestampMs = noted at marked start queued
    have tracked : l.Tracks (past ++ [call]) noted := by
      refine ⟨queued,fun calm => ?_,fun _ => ?_⟩
      · rw [marked] at calm
        cases calm
      · cases before : s.inViolation with
        | false =>
          -- nothing that reached up to the last call was sustained
          refine ⟨past.length,call,by simp,by rw [start,before]; rfl,
            Limiter.sustained_snoc.mpr ⟨Limiter.sustained_length,fun _ => exceeds⟩,fun other sustained => ?_⟩
          by_contra earlier
          exact tracks.calm before other (by omega) (Limiter.sustained_snoc.mp sustained).1
        | true =>
          obtain ⟨index,first,found,same,sustained,least⟩ := tracks.running before
          have inside : index < past.length := (List.getElem?_eq_some_iff.mp found).1
          refine ⟨index,first,by rw [List.getElem?_append_left inside]; exact found,by rw [start,before]; exact same,
            Limiter.sustained_snoc.mpr ⟨sustained,fun _ => exceeds⟩,fun other later => ?_⟩
          exact least other (Limiter.sustained_snoc.mp later).1
    have threshold := queued.config.2.2.2
    split
    · rename_i lasted
      rw [threshold] at lasted
      exact ⟨tracked,fun _ => ⟨marked,lasted⟩,fun _ => rfl⟩
    · rename_i short
      rw [threshold] at short
      refine ⟨tracked,fun other => ?_,fun lasted => absurd lasted.2 short⟩
      cases other
  · rename_i within
    have relieved : ¬ l.Exceeds past call := fun exceeds => within (queued.exceeds_iff.mpr exceeds)
    obtain ⟨calm,kept⟩ := cleaned.endViolation_kept (l := l)
    refine ⟨⟨kept _ queued,fun _ start inside sustained => ?_,fun violating => ?_⟩,fun other => ?_,fun lasted => ?_⟩
    · rw [List.length_append,List.length_singleton] at inside
      exact relieved ((Limiter.sustained_snoc.mp sustained).2 (by omega))
    · rw [calm] at violating
      cases violating
    · cases other
    · rw [calm] at lasted
      cases lasted.1

theorem init_fresh {maxBitrateKbps violationTimeoutSeconds windowMs now : Int} {spikeTolerance : SpikeTolerance}
    (initialised : init maxBitrateKbps violationTimeoutSeconds windowMs spikeTolerance now = some l) :
    l.Tracks [] l ∧ 0 < l.windowMs := by
  unfold init at initialised
  split at initialised
  · cases initialised
  · rename_i accepted
    cases initialised
    refine ⟨⟨⟨⟨rfl,rfl,rfl,rfl⟩,rfl,rfl⟩,fun _ _ inside => absurd inside (Nat.not_lt_zero _),
      fun violating => absurd violating Bool.false_ne_true⟩,?_⟩
    show 0 < windowMs
    omega

theorem init_config {maxBitrateKbps violationTimeoutSeconds windowMs now : Int} {spikeTolerance : SpikeTolerance}
    (initialised : init maxBitrateKbps violationTimeoutSeconds windowMs spikeTolerance now = some l) :
    l.maxBitrateKbps = maxBitrateKbps ∧ l.lastCleanupTime = now := by
  unfold init at initialised
  split at initialised
  · cases initialised
  · cases initialised
    exact ⟨rfl,rfl⟩

theorem Limiter.Tracks.after (fresh : l.Tracks [] l) (limited : l.maxBitrateKbps ≠ 0) (calls : List DataPoint) :
    l.Tracks calls (l.after calls) := by
  induction calls using List.reverseRecOn with
  | nil => exact fresh
  | append_singleton past call ih =>
    rw [Limiter.after_snoc]
    exact (ih.check limited call).1

/-- A call asks for a disconnect exactly at the end of a stretch of exceeding calls that
has lasted for the threshold. -/
theorem Limiter.Tracks.disconnect_iff (fresh : l.Tracks [] l) (limited : l.maxBitrateKbps ≠ 0)
    (ordered : Ordered DataPoint.timestampMs (past ++ [call])) :
    l.returned past call = .disconnect ↔ ∃ start first, (past ++ [call])[start]? = some first ∧
      l.violationThresholdMs ≤ call.timestampMs - first.timestampMs ∧ l.Sustained (past ++ [call]) start := by
  obtain ⟨tracked,asked⟩ := (Limiter.Tracks.after fresh limited past).check limited call
  unfold Limiter.returned
  rw [asked]
  constructor
  · rintro ⟨violating,lasted⟩
    obtain ⟨start,first,found,same,sustained,_⟩ := tracked.running violating
    exact ⟨start,first,found,same ▸ lasted,sustained⟩
  · rintro ⟨start,first,found,lasted,sustained⟩
    have inside := (List.getElem?_eq_some_iff.mp found).1
    have violating : ((l.after past).checkDataBitrate call.bytes call.timestampMs).1.inViolation = true := by
      by_contra calm
      exact tracked.calm (by simpa using calm) start inside sustained
    obtain ⟨earlier,oldest,there,same,_,least⟩ := tracked.running violating
    have first_le : oldest.timestampMs ≤ first.timestampMs := by
      obtain ⟨bound,rfl⟩ := List.getElem?_eq_some_iff.mp there
      obtain ⟨bound',rfl⟩ := List.getElem?_eq_some_iff.mp found
      rcases Nat.lt_or_eq_of_le (least start sustained) with before | equal
      · exact List.pairwise_iff_getElem.mp ordered earlier start bound bound' before
      · simp [equal]
    exact ⟨violating,by rw [same]; omega⟩

end Tracks

section Compliance

/-- The bytes with timestamps in `(now - W, now]` amount to at most the spike limit over the
window, whatever `now` is. -/
def Limiter.Compliant (l : Limiter) (calls : List DataPoint) : Prop :=
  ∀ now : Int, 8 * (bytesOf (calls.filter fun call => now - l.windowMs < call.timestampMs ∧ call.timestampMs ≤ now) : Int) ≤
    l.spikeLimitKbps * l.windowMs

/-- No call asks for a disconnect if the stream is compliant. -/
def Limiter.Spares (l : Limiter) (calls : List DataPoint) : Prop :=
  l.Compliant calls → ∀ past call, past ++ [call] <+: calls → l.returned past call ≠ .disconnect

/-- How long ago the first of these calls was. -/
def ageOf (now : Int) : List DataPoint → Int
  | [] => 0
  | first::_ => now - first.timestampMs

/-- The calls that are at most a window old, and those that are up to a second older: a
sample may stay that long behind its window. -/
def Limiter.recent (l : Limiter) (calls : List DataPoint) (now : Int) : List DataPoint :=
  within DataPoint.timestampMs (now - l.windowMs) now calls

def Limiter.late (l : Limiter) (calls : List DataPoint) (now : Int) : List DataPoint :=
  within DataPoint.timestampMs (now - l.windowMs - 1000) now calls

/-- What came in a window and a second is less than a kbps above the spike limit, over the
age of the oldest call in the window, at least a second and at most the window. -/
def Limiter.Light (l : Limiter) (calls : List DataPoint) (now : Int) : Prop :=
  8000 * (bytesOf (l.late calls now) : Int) < 2 ^ 63 ∧
    8 * (bytesOf (l.late calls now) : Int) <
      (l.spikeLimitKbps + 1) * min l.windowMs (max 1000 (ageOf now (l.recent calls now)))

/-- What came in a window is a kbps or more above it, over the age of the oldest call in a
window and a second; and the rate is no number that `check_data_bitrate` cannot hold. -/
def Limiter.Heavy (l : Limiter) (calls : List DataPoint) (now : Int) : Prop :=
  8000 * (bytesOf (l.late calls now) : Int) < 2 ^ 63 ∧
    8 * (bytesOf (l.late calls now) : Int) < 2 ^ 31 * min l.windowMs (max 1000 (ageOf now (l.recent calls now))) ∧
    (l.spikeLimitKbps + 1) * max 1000 (min l.windowMs (ageOf now (l.late calls now))) ≤
      8 * (bytesOf (l.recent calls now) : Int)

/-- Each stretch of calls that lasts for the threshold has a light one. -/
def Limiter.Relieved (l : Limiter) (calls : List DataPoint) : Prop :=
  ∀ start stop first last, start ≤ stop → calls[start]? = some first → calls[stop]? = some last →
    l.violationThresholdMs ≤ last.timestampMs - first.timestampMs →
    ∃ past call, past ++ [call] <+: calls ∧ start ≤ past.length ∧ past.length ≤ stop ∧
      l.Light (past ++ [call]) call.timestampMs

/-- A stretch of calls that lasts for the threshold has heavy ones only. -/
def Limiter.Overloaded (l : Limiter) (calls : List DataPoint) : Prop :=
  ∃ start stop first last, start ≤ stop ∧ calls[start]? = some first ∧ calls[stop]? = some last ∧
    l.violationThresholdMs ≤ last.timestampMs - first.timestampMs ∧
    ∀ past call, past ++ [call] <+: calls → start ≤ past.length → past.length ≤ stop →
      l.Heavy (past ++ [call]) call.timestampMs

section Measure

/-! The measure of the limiter between two measures of the traffic. -/

theorem bytesOf_within (low high : Int) (points : List DataPoint) :
    bytesOf (within DataPoint.timestampMs low high points) ≤ bytesOf points := by
  induction points with
  | nil => exact Nat.le_refl _
  | cons point rest ih =>
    unfold within bytesOf at ih ⊢
    rw [List.filter_cons]
    split
    · simp only [List.map_cons,List.sum_cons]
      omega
    · simp only [List.map_cons,List.sum_cons]
      omega

theorem effectiveRate_eq (bytes : Nat) {window : Int} (positive : 0 < window) :
    (bytes : Int) * 8 * 1000 / window / 1000 = (bytes : Int) * 8 / window :=
  calc (bytes : Int) * 8 * 1000 / window / 1000
      = (bytes : Int) * 8 * 1000 / (window * 1000) := Int.ediv_ediv_of_nonneg (Int.le_of_lt positive)
    _ = (bytes : Int) * 8 / window := Int.mul_ediv_mul_of_pos_left _ _ (by decide)

theorem bmod_le_self {x : Int} (nonneg : 0 ≤ x) (m : Nat) : x.bmod m ≤ x := by
  have cut : x % m ≤ x := by
    have whole := Int.emod_add_mul_ediv x m
    have counted : 0 ≤ (m : Int) * (x / m) := Int.mul_nonneg (Int.natCast_nonneg m) (Int.ediv_nonneg nonneg (Int.natCast_nonneg m))
    omega
  rw [Int.bmod_def]
  split
  · exact cut
  · omega

theorem bitrateKbps_le {bytes : Nat} {window : Int} (positive : 0 < window) (product : (bytes : Int) * 8 * 1000 < 2 ^ 63) :
    bitrateKbps bytes window ≤ (bytes : Int) * 8 / window := by
  have nonneg : (0 : Int) ≤ (bytes : Int) * 8 * 1000 := by omega
  have rate : (0 : Int) ≤ (bytes : Int) * 8 * 1000 / window := Int.ediv_nonneg nonneg (Int.le_of_lt positive)
  have kbps : (0 : Int) ≤ (bytes : Int) * 8 * 1000 / window / 1000 := Int.ediv_nonneg rate (by decide)
  have wide : ((bytes : Int) * 8 * 1000).bmod (2 ^ 64) = (bytes : Int) * 8 * 1000 :=
    Int.bmod_eq_of_le_mul_two (by omega) (by omega)
  unfold bitrateKbps
  rw [wide,Int.tdiv_eq_ediv_of_nonneg nonneg,Int.tdiv_eq_ediv_of_nonneg rate]
  exact (bmod_le_self kbps _).trans (Int.le_of_eq (effectiveRate_eq bytes positive))

theorem bitrateKbps_eq {bytes : Nat} {window : Int} (positive : 0 < window) (product : (bytes : Int) * 8 * 1000 < 2 ^ 63)
    (quotient : (bytes : Int) * 8 * 1000 / window / 1000 < 2 ^ 31) : bitrateKbps bytes window = (bytes : Int) * 8 / window := by
  have nonneg : (0 : Int) ≤ (bytes : Int) * 8 * 1000 := by omega
  have rate : (0 : Int) ≤ (bytes : Int) * 8 * 1000 / window := Int.ediv_nonneg nonneg (Int.le_of_lt positive)
  have kbps : (0 : Int) ≤ (bytes : Int) * 8 * 1000 / window / 1000 := Int.ediv_nonneg rate (by decide)
  have wide : ((bytes : Int) * 8 * 1000).bmod (2 ^ 64) = (bytes : Int) * 8 * 1000 :=
    Int.bmod_eq_of_le_mul_two (by omega) (by omega)
  have narrow : ((bytes : Int) * 8 * 1000 / window / 1000).bmod (2 ^ 32) = (bytes : Int) * 8 * 1000 / window / 1000 :=
    Int.bmod_eq_of_le_mul_two (by omega) (by omega)
  unfold bitrateKbps
  rw [wide,Int.tdiv_eq_ediv_of_nonneg nonneg,Int.tdiv_eq_ediv_of_nonneg rate,narrow]
  exact effectiveRate_eq bytes positive

/-- Over a shorter window the rate is only larger. -/
theorem lt_bitrateKbps {bytes : Nat} {effective window limit : Int} (positive : 0 < effective) (shorter : effective ≤ window)
    (product : (bytes : Int) * 8 * 1000 < 2 ^ 63) (quotient : (bytes : Int) * 8 * 1000 / effective / 1000 < 2 ^ 31)
    (excess : (limit + 1) * window ≤ 8 * (bytes : Int)) : limit < bitrateKbps bytes effective := by
  rw [bitrateKbps_eq positive product quotient,Int.lt_iff_add_one_le,Int.le_ediv_iff_mul_le positive]
  rcases Int.le_total 0 (limit + 1) with allowed | negative
  · have fewer : (limit + 1) * effective ≤ (limit + 1) * window := Int.mul_le_mul_of_nonneg_left shorter allowed
    omega
  · have below : (limit + 1) * effective ≤ 0 := Int.mul_nonpos_of_nonpos_of_nonneg negative (Int.le_of_lt positive)
    omega

theorem ageOf_sublist {small big : List DataPoint} {now : Int} (ordered : Ordered DataPoint.timestampMs big)
    (part : small.Sublist big) (some : small ≠ []) : ageOf now small ≤ ageOf now big := by
  cases small with
  | nil => exact absurd rfl some
  | cons first rest =>
    have member := part.subset (List.mem_cons_self (a := first) (l := rest))
    cases big with
    | nil => cases member
    | cons oldest later =>
      have least : oldest.timestampMs ≤ first.timestampMs := by
        rcases List.mem_cons.mp member with rfl | behind
        · exact Int.le_refl _
        · exact (List.pairwise_cons.mp ordered).1 first behind
      exact Int.sub_le_sub_left least now

theorem effectiveWindowMs_ge (window now : Int) (points : List DataPoint) :
    min window (max 1000 (ageOf now points)) ≤ effectiveWindowMs window now points := by
  unfold effectiveWindowMs ageOf
  split
  · exact Int.min_le_left _ _
  · dsimp only
    split
    · exact Int.min_le_right _ _
    · exact Int.min_le_left _ _

theorem effectiveWindowMs_le (window now : Int) {points : List DataPoint} (some : points ≠ []) :
    effectiveWindowMs window now points ≤ max 1000 (min window (ageOf now points)) := by
  unfold effectiveWindowMs ageOf
  split
  · exact absurd rfl some
  · dsimp only
    split <;> omega

variable {l : Limiter} {past : List DataPoint} {call : DataPoint}

/-- The queue at a call holds the last window, and nothing that is more than a second behind it. -/
theorem Limiter.held_between (ordered : Ordered DataPoint.timestampMs (past ++ [call]))
    (ahead : ∀ other ∈ past ++ [call], l.lastCleanupTime ≤ other.timestampMs) (wide : 0 < l.windowMs) :
    (l.recent (past ++ [call]) call.timestampMs).Sublist (l.held (past ++ [call])) ∧
      (l.held (past ++ [call])).Sublist (l.late (past ++ [call]) call.timestampMs) ∧
      l.recent (past ++ [call]) call.timestampMs ≠ [] := by
  have latest : ∀ a ∈ past ++ [call], a.timestampMs ≤ call.timestampMs := by
    intro a member
    rcases List.mem_append.mp member with earlier | last
    · exact (List.pairwise_append.mp ordered).2.2 a earlier call (List.mem_singleton_self call)
    · cases List.mem_singleton.mp last
      exact Int.le_refl _
  have kept : Keeps DataPoint.timestampMs (call.timestampMs - l.windowMs) (past ++ [call]) (l.held (past ++ [call])) :=
    Lazy.after_keeps ordered latest
  have since : ∀ a ∈ l.held (past ++ [call]), call.timestampMs - l.windowMs - 1000 ≤ a.timestampMs :=
    Lazy.after_recent ordered ahead (Int.le_of_lt wide) (by decide)
  refine ⟨?_,?_,?_⟩
  · unfold Limiter.recent
    rw [kept.within (Int.le_refl _)]
    exact List.filter_sublist
  · obtain ⟨dropped,split,_⟩ := kept
    have inside : ∀ a ∈ l.held (past ++ [call]),
        call.timestampMs - l.windowMs - 1000 ≤ a.timestampMs ∧ a.timestampMs ≤ call.timestampMs := by
      intro a member
      exact ⟨since a member,latest a (by rw [split]; exact List.mem_append_right _ member)⟩
    have whole : within DataPoint.timestampMs _ _ _ = l.held (past ++ [call]) := within_eq_self inside
    have part := List.sublist_append_right dropped (l.held (past ++ [call]))
    rw [← split] at part
    unfold within at whole
    rw [← whole]
    exact part.filter _
  · refine List.ne_nil_of_mem (a := call) (List.mem_filter.mpr ⟨List.mem_append_right _ (List.mem_singleton_self call),?_⟩)
    simp only [decide_eq_true_eq]
    omega

theorem bytesOf_sublist {small big : List DataPoint} (part : small.Sublist big) : bytesOf small ≤ bytesOf big := by
  unfold bytesOf
  induction part with
  | slnil => exact Nat.le_refl _
  | cons point _ ih =>
    rw [List.map_cons,List.sum_cons]
    omega
  | cons_cons point _ ih =>
    rw [List.map_cons,List.map_cons,List.sum_cons,List.sum_cons]
    omega

theorem Limiter.late_ordered (ordered : Ordered DataPoint.timestampMs (past ++ [call])) :
    Ordered DataPoint.timestampMs (l.late (past ++ [call]) call.timestampMs) := List.Pairwise.filter _ ordered

theorem Limiter.Light.within_limit (ordered : Ordered DataPoint.timestampMs (past ++ [call]))
    (ahead : ∀ other ∈ past ++ [call], l.lastCleanupTime ≤ other.timestampMs) (wide : 0 < l.windowMs)
    (light : l.Light (past ++ [call]) call.timestampMs) : ¬ l.Exceeds past call := by
  obtain ⟨holds,reaches,some⟩ := Limiter.held_between ordered ahead wide
  obtain ⟨product,limit⟩ := light
  have fewer := bytesOf_sublist reaches
  have older : ageOf call.timestampMs _ ≤ ageOf call.timestampMs _ :=
    ageOf_sublist ((Limiter.late_ordered ordered).sublist reaches) holds some
  have window := effectiveWindowMs_ge l.windowMs call.timestampMs (l.held (past ++ [call]))
  unfold Limiter.Exceeds
  dsimp only
  generalize effectiveWindowMs l.windowMs call.timestampMs (l.held (past ++ [call])) = effective at window ⊢
  have floor : min l.windowMs (max 1000 (ageOf call.timestampMs (l.recent (past ++ [call]) call.timestampMs))) ≤ effective := by
    omega
  have spans : 0 < min l.windowMs (max 1000 (ageOf call.timestampMs (l.recent (past ++ [call]) call.timestampMs))) := by
    omega
  generalize min l.windowMs (max 1000 (ageOf call.timestampMs (l.recent (past ++ [call]) call.timestampMs))) = span at floor limit spans
  have positive : 0 < effective := by omega
  have allowed : 0 < l.spikeLimitKbps + 1 := by
    by_contra none
    have below := Int.mul_nonpos_of_nonpos_of_nonneg (Int.not_lt.mp none) (Int.le_of_lt spans)
    omega
  -- a longer span only makes the rate smaller
  have longer : (l.spikeLimitKbps + 1) * span ≤ (l.spikeLimitKbps + 1) * effective :=
    Int.mul_le_mul_of_nonneg_left floor (Int.le_of_lt allowed)
  have rate : bitrateKbps (bytesOf (l.held (past ++ [call]))) effective ≤ _ := bitrateKbps_le positive (by omega)
  have below : (bytesOf (l.held (past ++ [call])) : Int) * 8 / effective < l.spikeLimitKbps + 1 :=
    Int.ediv_lt_of_lt_mul positive (by omega)
  exact Int.not_lt.mpr (rate.trans (Int.lt_add_one_iff.mp below))

theorem Limiter.Heavy.exceeds (ordered : Ordered DataPoint.timestampMs (past ++ [call]))
    (ahead : ∀ other ∈ past ++ [call], l.lastCleanupTime ≤ other.timestampMs) (wide : 0 < l.windowMs)
    (heavy : l.Heavy (past ++ [call]) call.timestampMs) : l.Exceeds past call := by
  obtain ⟨holds,reaches,some⟩ := Limiter.held_between ordered ahead wide
  obtain ⟨product,quotient,excess⟩ := heavy
  have held : l.held (past ++ [call]) ≠ [] := by
    intro none
    rw [none] at holds
    exact some (List.sublist_nil.mp holds)
  have fewer := bytesOf_sublist reaches
  have more := bytesOf_sublist holds
  have older : ageOf call.timestampMs _ ≤ ageOf call.timestampMs _ :=
    ageOf_sublist ((Limiter.late_ordered ordered).sublist reaches) holds some
  have oldest : ageOf call.timestampMs _ ≤ ageOf call.timestampMs _ := ageOf_sublist (Limiter.late_ordered ordered) reaches held
  have window := effectiveWindowMs_ge l.windowMs call.timestampMs (l.held (past ++ [call]))
  have most := effectiveWindowMs_le l.windowMs call.timestampMs held
  unfold Limiter.Exceeds
  dsimp only
  generalize effectiveWindowMs l.windowMs call.timestampMs (l.held (past ++ [call])) = effective at window most ⊢
  have floor : min l.windowMs (max 1000 (ageOf call.timestampMs (l.recent (past ++ [call]) call.timestampMs))) ≤ effective := by
    omega
  have spans : 0 < min l.windowMs (max 1000 (ageOf call.timestampMs (l.recent (past ++ [call]) call.timestampMs))) := by
    omega
  have ceiling : effective ≤ max 1000 (min l.windowMs (ageOf call.timestampMs (l.late (past ++ [call]) call.timestampMs))) := by
    omega
  generalize min l.windowMs (max 1000 (ageOf call.timestampMs (l.recent (past ++ [call]) call.timestampMs))) = span at floor quotient spans
  generalize max 1000 (min l.windowMs (ageOf call.timestampMs (l.late (past ++ [call]) call.timestampMs))) = widest at ceiling excess
  have positive : 0 < effective := by omega
  have fits : (bytesOf (l.held (past ++ [call])) : Int) * 8 / effective < 2 ^ 31 := Int.ediv_lt_of_lt_mul positive (by omega)
  exact lt_bitrateKbps positive ceiling (by omega) (by rw [effectiveRate_eq _ positive]; exact fits) (by omega)

end Measure

theorem Limiter.check_unlimited {s : Limiter} (unlimited : s.maxBitrateKbps = 0) (bytes : Nat) (now : Int) :
    s.checkDataBitrate bytes now = ((s.record bytes now).cleanupOldData now,.ok) := if_pos unlimited

theorem Limiter.unlimited_returned {l : Limiter} (unlimited : l.maxBitrateKbps = 0) (past : List DataPoint) (call : DataPoint) :
    l.returned past call = .ok := by
  have kept : (l.after past).maxBitrateKbps = 0 := by
    induction past using List.reverseRecOn with
    | nil => exact unlimited
    | append_singleton past other ih =>
      rw [Limiter.after_snoc,Limiter.check_unlimited ih]
      exact ih
  rw [Limiter.returned,Limiter.check_unlimited kept]

theorem prefix_of_getElem? {calls : List DataPoint} {index : Nat} {call : DataPoint} (found : calls[index]? = some call) :
    calls.take index ++ [call] <+: calls ∧ (calls.take index).length = index := by
  obtain ⟨inside,rfl⟩ := List.getElem?_eq_some_iff.mp found
  rw [List.take_append_getElem inside,List.length_take]
  exact ⟨List.take_prefix _ _,by omega⟩

theorem prefix_getElem? {part calls : List DataPoint} {index : Nat} (inside : part <+: calls) (bound : index < part.length) :
    part[index]? = calls[index]? := by
  obtain ⟨rest,rfl⟩ := inside
  exact (List.getElem?_append_left bound).symm

/-- If every call of a stretch exceeds and the stretch lasts for the threshold, its end asks for a disconnect. -/
theorem Limiter.Tracks.disconnects {l : Limiter} (fresh : l.Tracks [] l) (limited : l.maxBitrateKbps ≠ 0) {calls : List DataPoint}
    (ordered : Ordered DataPoint.timestampMs calls) {start stop : Nat} {first last : DataPoint} (before : start ≤ stop)
    (foundFirst : calls[start]? = some first) (foundLast : calls[stop]? = some last)
    (lasted : l.violationThresholdMs ≤ last.timestampMs - first.timestampMs)
    (exceeding : ∀ past call, past ++ [call] <+: calls → start ≤ past.length → past.length ≤ stop → l.Exceeds past call) :
    l.returned (calls.take stop) last = .disconnect := by
  obtain ⟨inside,length⟩ := prefix_of_getElem? foundLast
  refine (fresh.disconnect_iff limited (ordered.sublist inside.sublist)).mpr ⟨start,first,?_,lasted,?_⟩
  · rw [prefix_getElem? inside (by rw [List.length_append,length,List.length_singleton]; omega)]
    exact foundFirst
  · intro past call part later
    have shorter := part.length_le
    rw [List.length_append,List.length_append,length,List.length_singleton,List.length_singleton] at shorter
    exact exceeding past call (part.trans inside) later (by omega)

theorem Limiter.Relieved.spares {l : Limiter} (fresh : l.Tracks [] l) (wide : 0 < l.windowMs) (limited : l.maxBitrateKbps ≠ 0)
    {calls : List DataPoint} (ordered : Ordered DataPoint.timestampMs calls)
    (ahead : ∀ call ∈ calls, l.lastCleanupTime ≤ call.timestampMs) (relieved : l.Relieved calls) : l.Spares calls := by
  intro _ past call inside disconnected
  obtain ⟨start,first,found,lasted,sustained⟩ :=
    (fresh.disconnect_iff limited (ordered.sublist inside.sublist)).mp disconnected
  have bound := (List.getElem?_eq_some_iff.mp found).1
  rw [List.length_append,List.length_singleton] at bound
  have foundFirst : calls[start]? = some first := by
    rw [← prefix_getElem? inside (by rw [List.length_append,List.length_singleton]; exact bound)]
    exact found
  have foundLast : calls[past.length]? = some call := by
    obtain ⟨rest,rfl⟩ := inside
    simp
  obtain ⟨prior,other,part,later,upTo,light⟩ :=
    relieved start past.length first call (by omega) foundFirst foundLast lasted
  have within := light.within_limit (ordered.sublist part.sublist) (fun a member => ahead a (part.subset member)) wide
  refine within (sustained prior other ?_ later)
  refine List.prefix_of_prefix_length_le part inside ?_
  simp only [List.length_append,List.length_singleton]
  omega

/-- If the clock at `init` is not ahead of the calls, a compliant stream is spared if there is
no limit, or each stretch of the threshold's length has a call at which the traffic of a
window and a second stays within the spike limit; and it is not spared over a stretch in
which the traffic of the window exceeds it at every call. -/
theorem compliant_stream_spared (maxBitrateKbps violationTimeoutSeconds windowMs now : Int) (spikeTolerance : SpikeTolerance)
    (l : Limiter) (initialised : init maxBitrateKbps violationTimeoutSeconds windowMs spikeTolerance now = some l)
    (calls : List DataPoint) (ordered : Ordered DataPoint.timestampMs calls) :
    (maxBitrateKbps = 0 ∨ (∀ call ∈ calls, now ≤ call.timestampMs) ∧ l.Relieved calls → l.Spares calls) ∧
      (maxBitrateKbps ≠ 0 → (∀ call ∈ calls, now ≤ call.timestampMs) → l.Overloaded calls → l.Compliant calls →
        ¬ l.Spares calls) := by
  obtain ⟨fresh,wide⟩ := init_fresh initialised
  obtain ⟨limit,clock⟩ := init_config initialised
  subst limit
  subst clock
  constructor
  · rintro (unlimited | ⟨ahead,relieved⟩)
    · intro _ past call _
      rw [Limiter.unlimited_returned unlimited]
      exact BitrateCheckResult.noConfusion
    · by_cases unlimited : l.maxBitrateKbps = 0
      · intro _ past call _
        rw [Limiter.unlimited_returned unlimited]
        exact BitrateCheckResult.noConfusion
      · exact relieved.spares fresh wide unlimited ordered ahead
  · rintro limited ahead ⟨start,stop,first,last,before,foundFirst,foundLast,lasted,heavy⟩ compliant spared
    refine spared compliant _ _ (prefix_of_getElem? foundLast).1
      (fresh.disconnects limited ordered before foundFirst foundLast lasted fun past call inside later upTo => ?_)
    exact (heavy past call inside later upTo).exceeds (ordered.sublist inside.sublist)
      (fun a member => ahead a (inside.subset member)) wide

/-- A limit of 1000 kbps without tolerance, the window of five seconds and the timeout of
thirty. -/
def strictLimiter : Limiter where
  maxBitrateKbps := 1000
  windowMs := 5000
  spikeLimitKbps := 1000
  violationThresholdMs := 30000
  dataWindow := []
  totalBytesInWindow := 0
  inViolation := false
  violationStartTime := 0
  lastViolationLogTime := 0
  totalBytesReceived := 0
  lastCleanupTime := 0

theorem strictLimiter_init : init 1000 30 5000 ⟨false,id⟩ 0 = some strictLimiter := rfl

def sparse : List DataPoint := [⟨0,6250⟩,⟨30000,6250⟩]

theorem compliant_stream_spared_sparse : strictLimiter.Spares sparse := by
  refine (compliant_stream_spared 1000 30 5000 0 ⟨false,id⟩ strictLimiter strictLimiter_init sparse
    (by unfold Ordered; decide)).1 (Or.inr ⟨by decide,?_⟩)
  intro start stop first last before foundFirst foundLast lasted
  have light : strictLimiter.Light ([] ++ [⟨0,6250⟩]) 0 := by unfold Limiter.Light; decide
  match start,stop with
  | 0,_ => exact ⟨[],⟨0,6250⟩,by decide,Nat.le_refl 0,Nat.zero_le _,light⟩
  | 1,1 =>
    cases foundFirst
    cases foundLast
    exact absurd lasted (by decide)
  | 1,stop + 2 => cases foundLast
  | start + 2,_ => cases foundFirst

/-- Every five seconds as much as the limit allows for five seconds. -/
def bursts : List DataPoint :=
  [⟨0,625000⟩,⟨5000,625000⟩,⟨10000,625000⟩,⟨15000,625000⟩,⟨20000,625000⟩,⟨25000,625000⟩,⟨30000,625000⟩]

theorem spaced_bytes {points : List DataPoint} {length : Int} {most : Nat}
    (spaced : points.Pairwise fun a b => a.timestampMs + length ≤ b.timestampMs) (small : ∀ a ∈ points, a.bytes ≤ most)
    (now : Int) : bytesOf (points.filter fun a => now - length < a.timestampMs ∧ a.timestampMs ≤ now) ≤ most := by
  induction points with
  | nil => exact Nat.zero_le most
  | cons first rest ih =>
    obtain ⟨apart,later⟩ := List.pairwise_cons.mp spaced
    by_cases inside : now - length < first.timestampMs ∧ first.timestampMs ≤ now
    · have none : rest.filter (fun a => now - length < a.timestampMs ∧ a.timestampMs ≤ now) = [] := by
        rw [List.filter_eq_nil_iff]
        intro a member
        have behind := apart a member
        simp only [decide_eq_true_eq,not_and]
        omega
      rw [List.filter_cons_of_pos (by simpa using inside),none]
      exact small first (List.mem_cons_self ..)
    · rw [List.filter_cons_of_neg (by simpa using inside)]
      exact ih later fun a member => small a (List.mem_cons_of_mem _ member)

theorem bursts_compliant : strictLimiter.Compliant bursts := by
  intro now
  have spaced : bursts.Pairwise fun a b => a.timestampMs + 5000 ≤ b.timestampMs := by decide
  have small : ∀ a ∈ bursts, a.bytes ≤ 625000 := by decide
  have bytes := spaced_bytes spaced small now
  show 8 * (bytesOf (bursts.filter fun call => now - 5000 < call.timestampMs ∧ call.timestampMs ≤ now) : Int) ≤ 1000 * 5000
  omega

/-- Each burst finds the one before it still in the queue, and both count for one window. -/
theorem compliant_bursts_disconnected :
    ¬ ∀ (l : Limiter) (calls : List DataPoint),
      (∃ maxBitrateKbps violationTimeoutSeconds windowMs spikeTolerance now,
        init maxBitrateKbps violationTimeoutSeconds windowMs spikeTolerance now = some l) →
      Ordered DataPoint.timestampMs calls → l.Spares calls := by
  intro claim
  have spared := claim strictLimiter bursts ⟨1000,30,5000,⟨false,id⟩,0,strictLimiter_init⟩ (by unfold Ordered; decide)
    bursts_compliant
  exact spared (bursts.take 6) ⟨30000,625000⟩ (by decide) (by decide)

end Compliance

section Evasion

/-- The product and the quotient of the rate at `call` fit their types. -/
def Limiter.InRange (l : Limiter) (past : List DataPoint) (call : DataPoint) : Prop :=
  let held := l.held (past ++ [call])
  (bytesOf held : Int) * 8 * 1000 < 2 ^ 63 ∧
    (bytesOf held : Int) * 8 * 1000 / effectiveWindowMs l.windowMs call.timestampMs held / 1000 < 2 ^ 31

theorem effectiveWindowMs_bounds {window : Int} (second : 1000 ≤ window) (now : Int) (points : List DataPoint) :
    1000 ≤ effectiveWindowMs window now points ∧ effectiveWindowMs window now points ≤ window := by
  unfold effectiveWindowMs
  split
  · exact ⟨second,Int.le_refl window⟩
  · dsimp only
    split
    · rename_i young
      exact ⟨Int.le_max_left _ _,Int.max_le.mpr ⟨second,Int.le_of_lt young⟩⟩
    · exact ⟨second,Int.le_refl window⟩

variable {l : Limiter} {past : List DataPoint} {call : DataPoint}

theorem Limiter.Exceeds.of_window (second : 1000 ≤ l.windowMs) (ordered : Ordered DataPoint.timestampMs (past ++ [call]))
    (inRange : l.InRange past call)
    (excess : (l.spikeLimitKbps + 1) * l.windowMs ≤
      8 * (bytesOf (within DataPoint.timestampMs (call.timestampMs - l.windowMs) call.timestampMs (past ++ [call])) : Int)) :
    l.Exceeds past call := by
  have latest : ∀ a ∈ past ++ [call], a.timestampMs ≤ call.timestampMs := by
    intro a member
    rcases List.mem_append.mp member with earlier | last
    · exact (List.pairwise_append.mp ordered).2.2 a earlier call (List.mem_singleton_self call)
    · cases List.mem_singleton.mp last
      exact Int.le_refl _
  have kept : Keeps DataPoint.timestampMs (call.timestampMs - l.windowMs) (past ++ [call]) (l.held (past ++ [call])) :=
    Lazy.after_keeps ordered latest
  rw [kept.within (Int.le_refl _)] at excess
  have more := bytesOf_within (call.timestampMs - l.windowMs) call.timestampMs (l.held (past ++ [call]))
  obtain ⟨floor,ceiling⟩ := effectiveWindowMs_bounds second call.timestampMs (l.held (past ++ [call]))
  unfold Limiter.Exceeds
  dsimp only
  exact lt_bitrateKbps (by omega) ceiling inRange.1 inRange.2 (by omega)

/-- From a stretch of the threshold's length in which at every call the last window holds
more than the spike limit allows, a disconnect follows; and the queue with its total always
accounts for the last window. -/
theorem sustained_excess_disconnected (maxBitrateKbps violationTimeoutSeconds windowMs now : Int) (spikeTolerance : SpikeTolerance)
    (l : Limiter) (initialised : init maxBitrateKbps violationTimeoutSeconds windowMs spikeTolerance now = some l)
    (second : 1000 ≤ l.windowMs) (limited : 0 < l.maxBitrateKbps) (calls : List DataPoint)
    (ordered : Ordered DataPoint.timestampMs calls)
    (inRange : ∀ past call, past ++ [call] <+: calls → l.InRange past call) :
    (∀ start stop first last, start ≤ stop → calls[start]? = some first → calls[stop]? = some last →
      l.violationThresholdMs ≤ last.timestampMs - first.timestampMs →
      (∀ past call, past ++ [call] <+: calls → start ≤ past.length → past.length ≤ stop →
        (l.spikeLimitKbps + 1) * l.windowMs ≤
          8 * (bytesOf (within DataPoint.timestampMs (call.timestampMs - l.windowMs) call.timestampMs (past ++ [call])) : Int)) →
      l.returned (calls.take stop) last = .disconnect) ∧
    ∀ past, past <+: calls → ∀ time, (∀ call ∈ past, call.timestampMs ≤ time) →
      (l.after past).totalBytesInWindow = bytesOf (l.after past).dataWindow ∧
        within DataPoint.timestampMs (time - l.windowMs) time (l.after past).dataWindow =
          within DataPoint.timestampMs (time - l.windowMs) time past := by
  have fresh := (init_fresh initialised).1
  have limit : l.maxBitrateKbps ≠ 0 := by omega
  constructor
  · intro start stop first last before foundFirst foundLast lasted excess
    refine fresh.disconnects limit ordered before foundFirst foundLast lasted fun past call inside later upTo => ?_
    exact Limiter.Exceeds.of_window second (ordered.sublist inside.sublist) (inRange past call inside)
      (excess past call inside later upTo)
  · intro past inside time latest
    have tracked := fresh.after limit past
    have queue : (l.after past).dataWindow = l.held past := congrArg Lazy.queue tracked.lazily
    refine ⟨tracked.total,?_⟩
    rw [queue]
    exact (Keeps.within (Lazy.after_keeps (ordered.sublist inside.sublist) latest) (Int.le_refl _)).symm

/-- Twice what the limit allows for a window. -/
def flood : List DataPoint := [⟨0,1250000⟩,⟨30000,1250000⟩]

theorem flood_prefix {past : List DataPoint} {call : DataPoint} (inside : past ++ [call] <+: flood) :
    past = [] ∧ call = ⟨0,1250000⟩ ∨ past = [⟨0,1250000⟩] ∧ call = ⟨30000,1250000⟩ := by
  rcases List.prefix_concat_iff.mp (show past ++ [call] <+: [⟨0,1250000⟩] ++ [⟨30000,1250000⟩] from inside) with whole | part
  · obtain ⟨rfl,single⟩ := List.append_inj' whole rfl
    exact Or.inr ⟨rfl,List.cons.inj single |>.1⟩
  · rcases List.prefix_concat_iff.mp (show past ++ [call] <+: [] ++ [⟨0,1250000⟩] from part) with whole | none
    · obtain ⟨rfl,single⟩ := List.append_inj' whole rfl
      exact Or.inl ⟨rfl,List.cons.inj single |>.1⟩
    · exact absurd (List.prefix_nil.mp none) (by simp)

theorem sustained_excess_disconnected_flood : strictLimiter.returned [⟨0,1250000⟩] ⟨30000,1250000⟩ = .disconnect := by
  refine (sustained_excess_disconnected 1000 30 5000 0 ⟨false,id⟩ strictLimiter strictLimiter_init (by decide) (by decide)
    flood (by unfold Ordered; decide) ?_).1 0 1 ⟨0,1250000⟩ ⟨30000,1250000⟩ (by decide) rfl rfl (by decide) ?_
  · intro past call inside
    rcases flood_prefix inside with ⟨rfl,rfl⟩ | ⟨rfl,rfl⟩
    · unfold Limiter.InRange
      decide
    · unfold Limiter.InRange
      decide
  · intro past call inside _ _
    rcases flood_prefix inside with ⟨rfl,rfl⟩ | ⟨rfl,rfl⟩
    · decide
    · decide

end Evasion

end SrtLiveServer.BitrateLimit
