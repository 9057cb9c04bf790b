import SrtLiveServer.PusherManager

/-! One pass of `CSLSGroup::check_reconnect_relay` over the managers queued with a
worker. A manager leaves the queue when its `reconnect` reports success, so the
report decides whether a leg that is still waiting is ever looked at again. -/
namespace SrtLiveServer.ReconnectRound
open Bytes PusherManager

/-- A queued manager in mode `SLS_PM_ALL`, with what its `reconnect` meets. -/
structure Manager where
  /-- `check_relay_param`, the relay configuration and the length of the stream key. -/
  ready : Bool
  reconnectInterval : Int
  noPublisher : Bool
  connect : Text → Bool
  reconnectRelay : ReconnectMap

def Manager.reconnect (cur : Int) (m : Manager) : Manager × Bool :=
  if m.ready then
    let round := reconnectAll m.connect cur m.reconnectInterval m.noPublisher m.reconnectRelay
    ({m with reconnectRelay := round.1},round.2)
  else (m,false)

/-- The entries that stay queued, and the managers dropped for their success. An
expired pointer is `none`. -/
def checkReconnectRelay (cur : Int) : List (Option Manager) → List (Option Manager) × List Manager
  | [] => ([],[])
  | none::rest => checkReconnectRelay cur rest
  | some m::rest =>
    let next := checkReconnectRelay cur rest
    let round := m.reconnect cur
    if round.2 then (next.1,round.1::next.2) else (some round.1::next.1,next.2)

def stays (connect : Text → Bool) (cur interval : Int) (noPublisher : Bool) (entry : Text × Int) : Bool :=
  !isDue cur interval entry || noPublisher || !connect entry.1

/-- The round hides a leg that was not due behind the success of those that were:
the first leg is due, every due leg connects, and some leg is not due. -/
def Masked (connect : Text → Bool) (cur interval : Int) (noPublisher : Bool) (map : ReconnectMap) : Prop :=
  noPublisher = false ∧ (map.head?.any (isDue cur interval)) = true ∧
    (∀ entry ∈ map, isDue cur interval entry = true → connect entry.1 = true) ∧
    ∃ entry ∈ map, isDue cur interval entry = false

instance (connect : Text → Bool) (cur interval : Int) (noPublisher : Bool) (map : ReconnectMap) :
    Decidable (Masked connect cur interval noPublisher map) := inferInstanceAs (Decidable (_ ∧ _))

def Manager.Masked (cur : Int) (m : Manager) : Prop :=
  m.ready = true ∧ ReconnectRound.Masked m.connect cur m.reconnectInterval m.noPublisher m.reconnectRelay

theorem reconnectFrom_left (connect : Text → Bool) (cur interval : Int) (noPublisher ret : Bool) (map : ReconnectMap) :
    (reconnectFrom connect cur interval noPublisher ret map).1.map Prod.fst =
      (map.filter (stays connect cur interval noPublisher)).map Prod.fst := by
  induction map generalizing ret with
  | nil => rfl
  | cons entry rest ih =>
    unfold reconnectFrom
    by_cases due : isDue cur interval entry = true
    · rw [if_pos due]
      cases noPublisher with
      | true =>
        have kept : stays connect cur interval true entry = true := by simp [stays]
        rw [List.filter_cons_of_pos kept,if_pos rfl,List.map_cons,List.map_cons,ih]
      | false =>
        rw [if_neg Bool.false_ne_true]
        dsimp only
        by_cases connected : connect entry.1 = true
        · have gone : ¬ stays connect cur interval false entry = true := by simp [stays,due,connected]
          rw [if_pos connected,List.filter_cons_of_neg gone,ih]
        · have kept : stays connect cur interval false entry = true := by simp [stays,connected]
          rw [if_neg connected,List.filter_cons_of_pos kept,List.map_cons,List.map_cons,ih]
    · have kept : stays connect cur interval noPublisher entry = true := by simp [stays,due]
      rw [if_neg due,List.filter_cons_of_pos kept,List.map_cons,List.map_cons,ih]

theorem reconnectFrom_succeeds (connect : Text → Bool) (cur interval : Int) (map : ReconnectMap)
    (connects : ∀ entry ∈ map, isDue cur interval entry = true → connect entry.1 = true) :
    (reconnectFrom connect cur interval false true map).2 = true := by
  induction map with
  | nil => rfl
  | cons entry rest ih =>
    have later := ih fun other member => connects other (List.mem_cons_of_mem entry member)
    unfold reconnectFrom
    by_cases due : isDue cur interval entry = true
    · have connected := connects entry List.mem_cons_self due
      simp only [due,connected,if_true,Bool.false_eq_true,if_false]
      exact later
    · simp only [due,Bool.false_eq_true,if_false,Bool.true_and]
      exact later

theorem reconnectAll_succeeds (connect : Text → Bool) (cur interval : Int) {first : Text × Int} {rest : ReconnectMap}
    (due : isDue cur interval first = true)
    (connects : ∀ entry ∈ first::rest, isDue cur interval entry = true → connect entry.1 = true) :
    (reconnectAll connect cur interval false (first::rest)).2 = true := by
  have connected := connects first List.mem_cons_self due
  unfold reconnectAll reconnectFrom
  simp only [due,connected,if_true,Bool.false_eq_true,if_false]
  exact reconnectFrom_succeeds connect cur interval rest fun other member =>
    connects other (List.mem_cons_of_mem first member)

theorem reconnectAll_empties_iff (connect : Text → Bool) (cur interval : Int) (noPublisher : Bool) (map : ReconnectMap) :
    ((reconnectAll connect cur interval noPublisher map).2 = true →
      (reconnectAll connect cur interval noPublisher map).1 = []) ↔ ¬ Masked connect cur interval noPublisher map := by
  constructor
  · rintro empties ⟨rfl,headDue,connects,waiting,member,notDue⟩
    cases map with
    | nil => cases member
    | cons first rest =>
      have gone := empties (reconnectAll_succeeds connect cur interval headDue connects)
      rw [reconnectAll,reconnectFrom_rest connect cur interval false (first::rest) connects] at gone
      have kept := List.filter_eq_nil_iff.mp gone waiting member
      rw [notDue] at kept
      exact kept rfl
  · intro clear ok
    rcases reconnectAll_ok connect cur interval noPublisher map ok with rfl | ⟨rfl,⟨first,rest,rfl,due⟩,connects⟩
    · rfl
    · rw [reconnectAll,reconnectFrom_rest connect cur interval false (first::rest) connects,List.filter_eq_nil_iff]
      intro entry member waiting
      exact clear ⟨rfl,due,connects,entry,member,by simpa using waiting⟩

theorem Manager.reconnect_empties_iff (cur : Int) (m : Manager) :
    ((m.reconnect cur).2 = true → (m.reconnect cur).1.reconnectRelay = []) ↔ ¬ m.Masked cur := by
  unfold Manager.reconnect Manager.Masked
  cases ready : m.ready with
  | false => simp
  | true =>
    rw [if_pos rfl]
    dsimp only
    rw [reconnectAll_empties_iff]
    simp

theorem checkReconnectRelay_drops_iff (cur : Int) (queue : List (Option Manager)) :
    (∀ m ∈ (checkReconnectRelay cur queue).2, m.reconnectRelay = []) ↔ ∀ m, some m ∈ queue → ¬ m.Masked cur := by
  induction queue with
  | nil => simp [checkReconnectRelay]
  | cons entry rest ih =>
    cases entry with
    | none =>
      rw [checkReconnectRelay,ih]
      simp
    | some m =>
      have others : (∀ other, some other ∈ some m::rest → ¬ other.Masked cur) ↔
          ¬ m.Masked cur ∧ ∀ other, some other ∈ rest → ¬ other.Masked cur := by simp
      rw [others,← ih,← m.reconnect_empties_iff cur,checkReconnectRelay]
      split
      · rename_i ok
        simp [ok]
      · rename_i failed
        simp [failed]

/-- What a round leaves is what it could not connect; that a round reports success
only over an emptied map, and that no manager is dropped with a leg waiting, holds
exactly where no round masks a leg that was not due. -/
theorem reconnect_success_empties_iff (connect : Text → Bool) (cur interval : Int) (noPublisher : Bool)
    (map : ReconnectMap) (queue : List (Option Manager)) :
    let round := reconnectAll connect cur interval noPublisher map
    (((round.2 = true → round.1 = []) ∧
        round.1.map Prod.fst = (map.filter (stays connect cur interval noPublisher)).map Prod.fst) ↔
      ¬ Masked connect cur interval noPublisher map) ∧
    ((∀ m ∈ (checkReconnectRelay cur queue).2, m.reconnectRelay = []) ↔ ∀ m, some m ∈ queue → ¬ m.Masked cur) := by
  have left := reconnectFrom_left connect cur interval noPublisher false map
  refine ⟨?_,checkReconnectRelay_drops_iff cur queue⟩
  rw [← reconnectAll_empties_iff]
  exact ⟨And.left,fun empties => ⟨empties,left⟩⟩

def twoLegs : ReconnectMap := [(ascii "srt://a:1?streamid=x",0),(ascii "srt://b:1?streamid=x",11000)]

/-- The first leg is due and connects, the second waits: the round succeeds, the
manager is dropped, and the second leg is left. -/
theorem due_leg_masks_waiting_leg :
    (¬ ∀ (connect : Text → Bool) (cur interval : Int) (noPublisher : Bool) (map : ReconnectMap),
      (reconnectAll connect cur interval noPublisher map).2 = true →
        (reconnectAll connect cur interval noPublisher map).1 = []) ∧
    ¬ ∀ (cur : Int) (queue : List (Option Manager)), ∀ m ∈ (checkReconnectRelay cur queue).2, m.reconnectRelay = [] := by
  constructor
  · intro claim
    have emptied := claim (fun _ => true) 12000 10 false twoLegs (by decide)
    cases emptied
  · intro claim
    have emptied := claim 12000 [some ⟨true,10,false,fun _ => true,twoLegs⟩] _ List.mem_cons_self
    cases emptied

end SrtLiveServer.ReconnectRound
