import Mathlib.Data.List.Induction
import Mathlib.Data.List.TakeWhile

/-! Queues of timed samples that are trimmed from the front. What was trimmed lies
before a horizon, so a window that reaches back no further can be read off the queue
as well as off the whole history. -/
namespace SlidingWindow

variable {α : Type} (time : α → Int)

def trim (cutoff : Int) (queue : List α) : List α := queue.dropWhile fun a => time a < cutoff

def Ordered (samples : List α) : Prop := samples.Pairwise fun a b => time a ≤ time b

/-- The samples with `low ≤ time ≤ high`. -/
def within (low high : Int) (samples : List α) : List α := samples.filter fun a => low ≤ time a ∧ time a ≤ high

/-- `queue` is the history without some first samples, all of them before the horizon. -/
def Keeps (horizon : Int) (history queue : List α) : Prop :=
  ∃ dropped, history = dropped ++ queue ∧ ∀ a ∈ dropped, time a < horizon

/-- A queue that is trimmed to the last `length` at the first sample more than `period`
after the last trimming. -/
structure Lazy (α : Type) where
  queue : List α
  trimmed : Int

def Lazy.push (period length : Int) (w : Lazy α) (a : α) : Lazy α :=
  if period < time a - w.trimmed then ⟨trim time (time a - length) (w.queue ++ [a]),time a⟩ else ⟨w.queue ++ [a],w.trimmed⟩

def Lazy.after (period length start : Int) (history : List α) : Lazy α :=
  history.foldl (Lazy.push time period length) ⟨[],start⟩

/-- At each sample fewer than `count` earlier ones are at most `length` old. -/
inductive Paced (length : Int) (count : Nat) : List α → Prop where
  | nil : Paced length count []
  | snoc {history : List α} {a : α} (paced : Paced length count history)
      (room : (within time (time a - length) (time a) history).length < count) : Paced length count (history ++ [a])

variable {time} {history queue : List α} {horizon low high : Int}

theorem Ordered.snoc (ordered : Ordered time history) {a : α} (latest : ∀ b ∈ history, time b ≤ time a) :
    Ordered time (history ++ [a]) := by
  refine List.pairwise_append.mpr ⟨ordered,List.pairwise_singleton _ _,?_⟩
  intro b member last same
  rw [List.mem_singleton.mp same]
  exact latest b member

theorem trim_ge (cutoff : Int) (ordered : Ordered time queue) : ∀ a ∈ trim time cutoff queue, cutoff ≤ time a := by
  induction queue with
  | nil =>
    intro a member
    cases member
  | cons first rest ih =>
    obtain ⟨earliest,later⟩ := List.pairwise_cons.mp ordered
    intro a member
    unfold trim at member
    rw [List.dropWhile_cons] at member
    split at member
    · exact ih later a member
    · rename_i recent
      have start : cutoff ≤ time first := by simpa using recent
      rcases List.mem_cons.mp member with rfl | inside
      · exact start
      · exact Int.le_trans start (earliest a inside)

theorem Keeps.refl : Keeps time horizon history history := ⟨[],rfl,fun _ member => by cases member⟩

theorem Keeps.push (keeps : Keeps time horizon history queue) (a : α) : Keeps time horizon (history ++ [a]) (queue ++ [a]) := by
  obtain ⟨dropped,split,early⟩ := keeps
  exact ⟨dropped,by rw [split,List.append_assoc],early⟩

theorem Keeps.later {next : Int} (keeps : Keeps time horizon history queue) (passed : horizon ≤ next) :
    Keeps time next history queue := by
  obtain ⟨dropped,split,early⟩ := keeps
  exact ⟨dropped,split,fun a member => Int.lt_of_lt_of_le (early a member) passed⟩

theorem Keeps.trim (keeps : Keeps time horizon history queue) {cutoff : Int} (behind : cutoff ≤ horizon) :
    Keeps time horizon history (trim time cutoff queue) := by
  obtain ⟨dropped,split,early⟩ := keeps
  refine ⟨dropped ++ queue.takeWhile fun a => time a < cutoff,?_,?_⟩
  · rw [split,List.append_assoc]
    congr 1
    exact (List.takeWhile_append_dropWhile).symm
  · intro a member
    rcases List.mem_append.mp member with gone | trimmed
    · exact early a gone
    · have old : time a < cutoff := by simpa using List.mem_takeWhile_imp trimmed
      exact Int.lt_of_lt_of_le old behind

theorem Keeps.ordered (keeps : Keeps time horizon history queue) (ordered : Ordered time history) : Ordered time queue := by
  obtain ⟨dropped,rfl,_⟩ := keeps
  exact (List.pairwise_append.mp ordered).2.1

theorem Keeps.within (keeps : Keeps time horizon history queue) (ahead : horizon ≤ low) :
    within time low high history = within time low high queue := by
  obtain ⟨dropped,rfl,early⟩ := keeps
  have none : SlidingWindow.within time low high dropped = [] := by
    refine List.filter_eq_nil_iff.mpr fun a member => ?_
    have old := early a member
    simp only [decide_eq_true_eq,not_and]
    intro recent
    omega
  unfold SlidingWindow.within at none ⊢
  rw [List.filter_append,none,List.nil_append]

theorem within_eq_self (inside : ∀ a ∈ history, low ≤ time a ∧ time a ≤ high) : within time low high history = history := by
  refine List.filter_eq_self.mpr fun a member => ?_
  simpa using inside a member

theorem Keeps.trim_length (keeps : Keeps time horizon history queue) (ordered : Ordered time history) (low : Int)
    (past : ∀ a ∈ history, time a ≤ high) :
    (SlidingWindow.trim time low queue).length ≤ (SlidingWindow.within time low high history).length := by
  have recent := trim_ge low (keeps.ordered ordered)
  obtain ⟨dropped,rfl,_⟩ := keeps
  have left : (SlidingWindow.trim time low queue).Sublist (dropped ++ queue) :=
    (List.dropWhile_sublist _).trans (List.sublist_append_right _ _)
  have inside := within_eq_self fun a member => ⟨recent a member,past a (left.subset member)⟩
  calc
    (SlidingWindow.trim time low queue).length = (SlidingWindow.within time low high (SlidingWindow.trim time low queue)).length :=
      congrArg List.length inside.symm
    _ ≤ (SlidingWindow.within time low high (dropped ++ queue)).length := (left.filter _).length_le

section Lazy

variable {period length start : Int}

theorem Lazy.after_snoc (a : α) :
    Lazy.after time period length start (history ++ [a]) =
      (Lazy.after time period length start history).push time period length a := by
  unfold Lazy.after
  rw [List.foldl_append]
  rfl

theorem Lazy.after_keeps (ordered : Ordered time history) {t : Int} (latest : ∀ a ∈ history, time a ≤ t) :
    Keeps time (t - length) history (Lazy.after time period length start history).queue := by
  induction history using List.reverseRecOn generalizing t with
  | nil => exact Keeps.refl
  | append_singleton history a ih =>
    have parts := List.pairwise_append.mp ordered
    have past : ∀ b ∈ history, time b ≤ t := fun b member => latest b (List.mem_append_left _ member)
    have here : time a ≤ t := latest a (List.mem_append_right _ (List.mem_singleton_self a))
    have pushed := (ih parts.1 past).push a
    rw [Lazy.after_snoc]
    unfold Lazy.push
    split
    · exact pushed.trim (by omega)
    · exact pushed

theorem Lazy.after_trimmed {t : Int} (latest : ∀ a ∈ history, time a ≤ t) (begun : start ≤ t) :
    (Lazy.after time period length start history).trimmed ≤ t := by
  induction history using List.reverseRecOn with
  | nil => exact begun
  | append_singleton history a ih =>
    rw [Lazy.after_snoc]
    unfold Lazy.push
    split
    · exact latest a (List.mem_append_right _ (List.mem_singleton_self a))
    · exact ih fun b member => latest b (List.mem_append_left _ member)

/-- With a clock that goes on from `start`, what is in the queue is less than a period behind
what a trimming would leave. -/
theorem Lazy.after_since (ordered : Ordered time history) (ahead : ∀ a ∈ history, start ≤ time a) (wide : 0 ≤ length) :
    ∀ a ∈ (Lazy.after time period length start history).queue,
      (Lazy.after time period length start history).trimmed - length ≤ time a := by
  induction history using List.reverseRecOn with
  | nil =>
    intro a member
    cases member
  | append_singleton history a ih =>
    have parts := List.pairwise_append.mp ordered
    have since := ih parts.1 fun b member => ahead b (List.mem_append_left _ member)
    have latest : ∀ b ∈ history, time b ≤ time a := fun b member => parts.2.2 b member a (List.mem_singleton_self a)
    have before : (Lazy.after time period length start history).trimmed ≤ time a :=
      Lazy.after_trimmed latest (ahead a (List.mem_append_right _ (List.mem_singleton_self a)))
    have keeps : Keeps time (time a - length) history (Lazy.after time period length start history).queue :=
      Lazy.after_keeps parts.1 latest
    have kept := (keeps.push a).ordered ordered
    rw [Lazy.after_snoc]
    unfold Lazy.push
    split
    · exact trim_ge _ kept
    · intro b member
      rcases List.mem_append.mp member with old | new
      · exact since b old
      · rw [List.mem_singleton.mp new]
        change (Lazy.after time period length start history).trimmed - length ≤ time a
        omega

theorem Lazy.after_recent {a : α} (ordered : Ordered time (history ++ [a])) (ahead : ∀ b ∈ history ++ [a], start ≤ time b)
    (wide : 0 ≤ length) (paused : 0 ≤ period) :
    ∀ b ∈ (Lazy.after time period length start (history ++ [a])).queue, time a - length - period ≤ time b := by
  intro b member
  have since := Lazy.after_since ordered ahead wide b member
  have recent : time a - (Lazy.after time period length start (history ++ [a])).trimmed ≤ period := by
    rw [Lazy.after_snoc]
    unfold Lazy.push
    split
    · change time a - time a ≤ period
      omega
    next early => exact Int.not_lt.mp early
  omega

end Lazy

theorem Paced.bound {length : Int} {count : Nat} (paced : Paced time length count history) (ordered : Ordered time history)
    (t : Int) : (within time (t - length) t history).length ≤ count := by
  induction paced with
  | nil => exact Nat.zero_le _
  | @snoc history a _ room ih =>
    have parts := List.pairwise_append.mp ordered
    have latest : ∀ b ∈ history, time b ≤ time a := fun b member => parts.2.2 b member a (List.mem_singleton_self a)
    have before := ih parts.1
    unfold SlidingWindow.within at before room ⊢
    rw [List.filter_append,List.length_append]
    by_cases inside : t - length ≤ time a ∧ time a ≤ t
    · -- what is in the window with `a` was in the window that ended at `a`
      have narrowed : (history.filter fun b => t - length ≤ time b ∧ time b ≤ t).length ≤
          (history.filter fun b => time a - length ≤ time b ∧ time b ≤ time a).length := by
        rw [← List.countP_eq_length_filter,← List.countP_eq_length_filter]
        refine List.countP_mono_left fun b member met => ?_
        have early := latest b member
        simp only [decide_eq_true_eq] at met ⊢
        omega
      have single := List.length_filter_le (fun b => decide (t - length ≤ time b ∧ time b ≤ t)) [a]
      rw [List.length_singleton] at single
      omega
    · have alone : [a].filter (fun b => t - length ≤ time b ∧ time b ≤ t) = [] := by
        rw [List.filter_cons_of_neg (by simpa using inside),List.filter_nil]
      rw [alone,List.length_nil]
      exact before

end SlidingWindow
