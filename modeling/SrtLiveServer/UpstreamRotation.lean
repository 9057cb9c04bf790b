import Mathlib.Algebra.Group.Int.Defs
import Mathlib.Data.List.GetD
import Mathlib.Data.List.Nodup
import SrtLiveServer.Checked
import SrtLiveServer.PushUrl
import SrtLiveServer.Transition

/-! `CSLSPullerManager`: the upstream a pull leg is dialed from. In mode loop the
manager turns through its upstreams, in mode hash the stream name picks one. The
result of each `connect` is a parameter. -/
namespace SrtLiveServer.UpstreamRotation
open Bytes Checked PushUrl Transition

/-- `szURL`, if it fits. -/
def relayUrl (upstream streamName : Text) : Option Text :=
  let url := ascii "srt://" ++ cStr upstream ++ ascii "/" ++ urlEncode streamName
  if url.length < urlMaxLen then some url else none

inductive Mode where
  | loop
  | hash
  | all
deriving DecidableEq

structure Puller where
  upstreams : List Text
  mode : Mode
  reconnectInterval : Int
  appUplive : Text
  streamName : Text
  curLoopIndex : Int
  reconnectBeginTm : Int

/-- The results of the `connect` calls, in the order they are made. -/
abbrev Connects : Type := Nat → Text → Int

/-- A return code, and the dials with the index of their upstream. -/
structure Dialed where
  ret : Int
  dials : List (Int × Text)

def upstreamAt (upstreams : List Text) (index : Int) : Except Fault Text :=
  if index < 0 then .error .outOfBounds else readAt upstreams index.toNat

/-- The loop of `connect_loop`. A URL that does not fit leaves the function before the index is stored. -/
def loopFrom (p : Puller) (connect : Connects) : Nat → Nat → Int → Except Fault (Puller × Dialed)
  | 0,_,_ => .error .endless
  | bound + 1,count,index => do
    let index := if (p.upstreams.length : Int) ≤ index then 0 else index
    let upstream ← upstreamAt p.upstreams index
    match relayUrl upstream p.streamName with
    | none => pure (p,⟨slsError,[]⟩)
    | some url =>
      let ret := connect count url
      if ret = slsOk then pure ({p with curLoopIndex := index},⟨ret,[(index,url)]⟩)
      else if index = p.curLoopIndex then pure ({p with curLoopIndex := index},⟨ret,[(index,url)]⟩)
      else do
        let (p',later) ← loopFrom p connect bound (count + 1) (index + 1)
        pure (p',{later with dials := (index,url)::later.dials})

def Puller.connectLoop (p : Puller) (connect : Connects) : Except Fault (Puller × Dialed) :=
  if p.upstreams.length = 0 then pure (p,⟨slsError,[]⟩)
  else
    let p := if p.curLoopIndex = -1 then {p with curLoopIndex := p.upstreams.length - 1} else p
    loopFrom p connect p.upstreams.length 0 (p.curLoopIndex + 1)

/-- `sls_hash_key`; a `char` is signed. -/
def slsHashKey (data : Text) : UInt32 :=
  data.foldl (fun key c => key * 31 + c.toInt8.toInt32.toUInt32) 0

def getHashUrl (upstreams : List Text) (streamName : Text) : Text :=
  if upstreams.isEmpty then [] else upstreams.getD ((slsHashKey streamName).toNat % upstreams.length) []

def Puller.connectHash (p : Puller) (connect : Connects) : Dialed :=
  let url := getHashUrl p.upstreams p.streamName
  if url.isEmpty then ⟨slsError,[]⟩
  else
    match relayUrl url p.streamName with
    | none => ⟨slsError,[]⟩
    | some szURL => ⟨connect 0 szURL,[((slsHashKey p.streamName).toNat % p.upstreams.length,szURL)]⟩

def Puller.start (p : Puller) (hasPublisher : Bool) (connect : Connects) : Except Fault (Puller × Dialed) :=
  if 1024 ≤ (p.appUplive ++ ascii "/" ++ p.streamName).length then pure (p,⟨slsError,[]⟩)
  else if hasPublisher then pure (p,⟨slsError,[]⟩)
  else
    match p.mode with
    | .loop => p.connectLoop connect
    | .hash => pure (p,p.connectHash connect)
    | .all => pure (p,⟨slsError,[]⟩)

/-- `relayParams` is the outcome of `check_relay_param`. -/
def Puller.reconnect (p : Puller) (curTmMs : Int) (relayParams hasPublisher : Bool) (connect : Connects) :
    Except Fault (Puller × Dialed) :=
  if curTmMs - p.reconnectBeginTm < p.reconnectInterval * 1000 then pure (p,⟨slsError,[]⟩)
  else
    let p := {p with reconnectBeginTm := curTmMs}
    if !relayParams then pure (p,⟨slsError,[]⟩)
    else if urlMaxLen ≤ (p.appUplive ++ ascii "/" ++ p.streamName).length then pure (p,⟨slsError,[]⟩)
    else do
      let (p,started) ← p.start hasPublisher connect
      pure (p,{started with ret := if started.ret = slsOk then slsOk else slsError})

/-- A call from outside, with what it meets. -/
inductive Call where
  | connectLoop (connect : Connects)
  | start (hasPublisher : Bool) (connect : Connects)
  | reconnect (curTmMs : Int) (relayParams hasPublisher : Bool) (connect : Connects)

def Puller.call (p : Puller) : Call → Except Fault (Puller × Dialed)
  | .connectLoop connect => p.connectLoop connect
  | .start hasPublisher connect => p.start hasPublisher connect
  | .reconnect curTmMs relayParams hasPublisher connect => p.reconnect curTmMs relayParams hasPublisher connect

def rotation : Machine Puller Call where
  step p c := (p.call c).toOption.map Prod.fst

/-- The URLs of all upstreams fit the buffer. -/
def Puller.Fits (p : Puller) : Prop := ∀ upstream ∈ p.upstreams, (relayUrl upstream p.streamName).isSome = true

def Puller.InRange (p : Puller) : Prop := -1 ≤ p.curLoopIndex ∧ p.curLoopIndex < p.upstreams.length

/-- The upstream whose turn it is after `i` others, counted from the one behind the current index. -/
def Puller.turn (p : Puller) (i : Nat) : Int := (p.curLoopIndex + 1 + i) % p.upstreams.length

def Puller.urlOf (p : Puller) (index : Int) : Text :=
  (relayUrl (p.upstreams.getD index.toNat []) p.streamName).getD []

def Puller.dial (p : Puller) (i : Nat) : Int × Text := (p.turn i,p.urlOf (p.turn i))

/-- One call dials `k` upstreams, in turn, until one connects. -/
structure Turned (p : Puller) (connect : Connects) (p' : Puller) (d : Dialed) (k : Nat) : Prop where
  some : 0 < k
  atMost : k ≤ p.upstreams.length
  dials : d.dials = (List.range k).map p.dial
  once : (d.dials.map Prod.fst).Nodup
  failed : ∀ i, i + 1 < k → connect i (p.dial i).2 ≠ slsOk
  ret : d.ret = connect (k - 1) (p.dial (k - 1)).2
  all : d.ret ≠ slsOk → ∀ index : Int, 0 ≤ index → index < p.upstreams.length → (d.dials.map Prod.fst).count index = 1
  last : p' = {p with curLoopIndex := (p.dial (k - 1)).1}

section Turn

variable {p : Puller} (inRange : p.InRange)
include inRange

theorem Puller.turn_eq {i : Nat} (few : i < p.upstreams.length) :
    p.turn i = if p.curLoopIndex + 1 + i < p.upstreams.length then p.curLoopIndex + 1 + i
      else p.curLoopIndex + 1 + i - p.upstreams.length := by
  obtain ⟨low,high⟩ := inRange
  unfold Puller.turn
  split
  · exact Int.emod_eq_of_lt (by omega) (by assumption)
  · rw [← Int.sub_emod_right,Int.emod_eq_of_lt (by omega) (by omega)]

theorem Puller.turn_bounds {i : Nat} (few : i < p.upstreams.length) : 0 ≤ p.turn i ∧ p.turn i < p.upstreams.length := by
  have eq := Puller.turn_eq inRange few
  obtain ⟨low,high⟩ := inRange
  split at eq <;> omega

theorem Puller.turn_injective {i j : Nat} (few : i < p.upstreams.length) (fewer : j < p.upstreams.length)
    (same : p.turn i = p.turn j) : i = j := by
  rw [Puller.turn_eq inRange few,Puller.turn_eq inRange fewer] at same
  split at same <;> split at same <;> omega

theorem Puller.turn_current {i : Nat} (started : 0 ≤ p.curLoopIndex) (few : i < p.upstreams.length) :
    p.turn i = p.curLoopIndex ↔ i + 1 = p.upstreams.length := by
  rw [Puller.turn_eq inRange few]
  obtain ⟨low,high⟩ := inRange
  split <;> omega

theorem Puller.turn_surjective {index : Int} (low : 0 ≤ index) (high : index < p.upstreams.length) :
    ∃ i, i < p.upstreams.length ∧ p.turn i = index := by
  obtain ⟨low',high'⟩ := inRange
  by_cases behind : p.curLoopIndex < index
  · have few : (index - p.curLoopIndex - 1).toNat < p.upstreams.length := by omega
    refine ⟨_,few,?_⟩
    rw [Puller.turn_eq ⟨low',high'⟩ few]
    split <;> omega
  · have few : (index - p.curLoopIndex - 1 + p.upstreams.length).toNat < p.upstreams.length := by omega
    refine ⟨_,few,?_⟩
    rw [Puller.turn_eq ⟨low',high'⟩ few]
    split <;> omega

theorem Puller.turn_count {k : Nat} (atMost : k ≤ p.upstreams.length) : ((List.range k).map p.turn).Nodup := by
  apply List.Nodup.map_on _ List.nodup_range
  intro i few j fewer same
  exact Puller.turn_injective inRange (by have := List.mem_range.mp few; omega) (by have := List.mem_range.mp fewer; omega) same

theorem Puller.upstreamAt_turn {i : Nat} (few : i < p.upstreams.length) :
    upstreamAt p.upstreams (p.turn i) = .ok (p.upstreams.getD (p.turn i).toNat []) := by
  obtain ⟨low,high⟩ := Puller.turn_bounds inRange few
  have inside : (p.turn i).toNat < p.upstreams.length := by omega
  unfold upstreamAt
  rw [if_neg (by omega),readAt_eq inside,List.getD_eq_getElem _ _ inside]

theorem Puller.relayUrl_turn (fits : p.Fits) {i : Nat} (few : i < p.upstreams.length) :
    relayUrl (p.upstreams.getD (p.turn i).toNat []) p.streamName = some (p.urlOf (p.turn i)) := by
  obtain ⟨low,high⟩ := Puller.turn_bounds inRange few
  have inside : (p.turn i).toNat < p.upstreams.length := by omega
  have member : p.upstreams.getD (p.turn i).toNat [] ∈ p.upstreams := by
    rw [List.getD_eq_getElem _ _ inside]
    exact List.getElem_mem inside
  obtain ⟨url,found⟩ := Option.isSome_iff_exists.mp (fits _ member)
  rw [Puller.urlOf,found]
  rfl

/-- One attempt: it is the last one if it connects or has come round to the current index. -/
theorem loopFrom_step (fits : p.Fits) (connect : Connects) (bound : Nat) {count : Nat} {index : Int}
    (few : count < p.upstreams.length)
    (here : (if (p.upstreams.length : Int) ≤ index then 0 else index) = p.turn count) :
    loopFrom p connect (bound + 1) count index =
      if connect count (p.dial count).2 = slsOk ∨ p.turn count = p.curLoopIndex then
        .ok ({p with curLoopIndex := p.turn count},⟨connect count (p.dial count).2,[p.dial count]⟩)
      else (do
        let (p',later) ← loopFrom p connect bound (count + 1) (p.turn count + 1)
        pure (p',{later with dials := p.dial count::later.dials})) := by
  rw [loopFrom]
  dsimp only
  rw [here,Puller.upstreamAt_turn inRange few,ok_bind,Puller.relayUrl_turn inRange fits few]
  dsimp only
  by_cases connected : connect count (p.dial count).2 = slsOk
  · rw [if_pos (Or.inl connected)]
    exact if_pos connected
  · by_cases round : p.turn count = p.curLoopIndex
    · rw [if_pos (Or.inr round)]
      exact (if_neg connected).trans (if_pos round)
    · rw [if_neg (not_or.mpr ⟨connected,round⟩)]
      exact (if_neg connected).trans (if_neg round)

theorem Puller.turn_succ {i : Nat} (few : i + 1 < p.upstreams.length) :
    (if (p.upstreams.length : Int) ≤ p.turn i + 1 then 0 else p.turn i + 1) = p.turn (i + 1) := by
  have here := Puller.turn_eq inRange (Nat.lt_of_succ_lt few)
  have next := Puller.turn_eq inRange few
  obtain ⟨low,high⟩ := inRange
  split at here <;> split at next <;> split <;> omega

theorem loopFrom_turns (started : 0 ≤ p.curLoopIndex) (fits : p.Fits) (connect : Connects) (bound : Nat) {count : Nat} {index : Int}
    (left : count + (bound + 1) = p.upstreams.length)
    (here : (if (p.upstreams.length : Int) ≤ index then 0 else index) = p.turn count) :
    ∃ k, count + (k + 1) ≤ p.upstreams.length ∧
      loopFrom p connect (bound + 1) count index =
        .ok ({p with curLoopIndex := p.turn (count + k)},
          ⟨connect (count + k) (p.dial (count + k)).2,(List.range' count (k + 1)).map p.dial⟩) ∧
      (∀ i, count ≤ i → i < count + k → connect i (p.dial i).2 ≠ slsOk) ∧
      (connect (count + k) (p.dial (count + k)).2 ≠ slsOk → count + (k + 1) = p.upstreams.length) := by
  induction bound generalizing count index with
  | zero =>
    have few : count < p.upstreams.length := by omega
    have final : p.turn count = p.curLoopIndex := (Puller.turn_current inRange started few).mpr left
    refine ⟨0,by omega,?_,by omega,fun _ => left⟩
    rw [loopFrom_step inRange fits connect 0 few here,if_pos (Or.inr final)]
    rfl
  | succ bound ih =>
    have few : count < p.upstreams.length := by omega
    have early : p.turn count ≠ p.curLoopIndex := by
      intro round
      have final := (Puller.turn_current inRange started few).mp round
      omega
    by_cases connected : connect count (p.dial count).2 = slsOk
    · refine ⟨0,by omega,?_,by omega,fun failed => absurd connected failed⟩
      rw [loopFrom_step inRange fits connect _ few here,if_pos (Or.inl connected)]
      rfl
    · obtain ⟨k,atMost,ran,failed,all⟩ := ih (by omega) (Puller.turn_succ inRange (i := count) (by omega))
      have shift : count + 1 + k = count + (k + 1) := by omega
      rw [shift] at ran failed all
      refine ⟨k + 1,by omega,?_,?_,?_⟩
      · rw [loopFrom_step inRange fits connect _ few here,if_neg (not_or.mpr ⟨connected,early⟩),ran]
        rfl
      · intro i low high
        by_cases first : i = count
        · rw [first]
          exact connected
        · exact failed i (by omega) high
      · intro last
        have total := all last
        omega

end Turn

/-- The manager as `connect_loop` enters its loop. -/
def Puller.started (p : Puller) : Puller :=
  if p.curLoopIndex = -1 then {p with curLoopIndex := p.upstreams.length - 1} else p

section Call

variable {p : Puller} (inRange : p.InRange) (some : 0 < p.upstreams.length)
include inRange some

theorem Puller.started_spec : ∃ cur, p.started = {p with curLoopIndex := cur} ∧ 0 ≤ cur ∧ cur < p.upstreams.length ∧
    ∀ i, p.started.turn i = p.turn i := by
  obtain ⟨low,high⟩ := inRange
  unfold Puller.started
  split
  · rename_i fresh
    refine ⟨_,rfl,by omega,by omega,fun i => ?_⟩
    show ((p.upstreams.length : Int) - 1 + 1 + i) % p.upstreams.length = (p.curLoopIndex + 1 + i) % p.upstreams.length
    rw [fresh,Int.sub_add_cancel,Int.add_comm,Int.add_emod_right]
    show (i : Int) % p.upstreams.length = (0 + i) % p.upstreams.length
    rw [Int.zero_add]
  · exact ⟨p.curLoopIndex,rfl,by omega,high,fun _ => rfl⟩

omit some in
theorem turned_of_dials {connect : Connects} {k : Nat} (atMost : k + 1 ≤ p.upstreams.length)
    (failed : ∀ i, i < k → connect i (p.dial i).2 ≠ slsOk)
    (all : connect k (p.dial k).2 ≠ slsOk → k + 1 = p.upstreams.length) :
    Turned p connect {p with curLoopIndex := p.turn k} ⟨connect k (p.dial k).2,(List.range (k + 1)).map p.dial⟩ (k + 1) := by
  have indices : ((List.range (k + 1)).map p.dial).map Prod.fst = (List.range (k + 1)).map p.turn := by
    rw [List.map_map]
    rfl
  have once : (((List.range (k + 1)).map p.dial).map Prod.fst).Nodup := by
    rw [indices]
    exact Puller.turn_count inRange atMost
  refine ⟨Nat.succ_pos k,atMost,rfl,once,fun i few => failed i (by omega),rfl,?_,rfl⟩
  intro refused index low high
  obtain ⟨i,few,rfl⟩ := Puller.turn_surjective inRange low high
  refine List.count_eq_one_of_mem once ?_
  rw [indices]
  exact List.mem_map_of_mem (List.mem_range.mpr (by rw [all refused]; exact few))

theorem connectLoop_turns (fits : p.Fits) (connect : Connects) :
    ∃ p' d k, p.connectLoop connect = .ok (p',d) ∧ Turned p connect p' d k := by
  obtain ⟨cur,begun,low,high,turns⟩ := Puller.started_spec inRange some
  have started : 0 ≤ p.started.curLoopIndex := by rw [begun]; exact low
  have size : p.started.upstreams.length = p.upstreams.length := by rw [begun]
  have fits' : p.started.Fits := by rw [begun]; exact fits
  have within : p.started.InRange := by
    unfold Puller.InRange
    rw [begun]
    exact ⟨Int.le_trans (by decide) low,high⟩
  have dials : ∀ i, p.started.dial i = p.dial i := by
    intro i
    unfold Puller.dial
    rw [turns,begun]
    rfl
  have stored : ∀ i, {p.started with curLoopIndex := p.started.turn i} = {p with curLoopIndex := p.turn i} := by
    intro i
    rw [turns,begun]
  have first : (if (p.started.upstreams.length : Int) ≤ p.started.curLoopIndex + 1 then 0 else p.started.curLoopIndex + 1) =
      p.started.turn 0 := by
    rw [Puller.turn_eq within (by omega)]
    obtain ⟨low',high'⟩ := within
    split <;> split <;> omega
  have bound : p.upstreams.length - 1 + 1 = p.upstreams.length := Nat.sub_add_cancel some
  obtain ⟨k,atMost,ran,failed,all⟩ := loopFrom_turns within started fits' connect (p.upstreams.length - 1)
    (show 0 + (p.upstreams.length - 1 + 1) = _ by omega) first
  have order : (List.range' 0 (k + 1)).map p.started.dial = (List.range (k + 1)).map p.dial := by
    rw [List.range_eq_range',List.map_congr_left fun i _ => dials i]
  rw [Nat.zero_add] at ran failed all atMost
  rw [stored,dials,order,bound] at ran
  rw [dials,size,Nat.zero_add] at all
  rw [size] at atMost
  have early : ∀ i, i < k → connect i (p.dial i).2 ≠ slsOk := by
    intro i few
    rw [← dials]
    exact failed i (Nat.zero_le i) few
  have whole : p.connectLoop connect = loopFrom p.started connect p.upstreams.length 0 (p.started.curLoopIndex + 1) := by
    have other : p.upstreams.length ≠ 0 := by omega
    unfold Puller.connectLoop
    rw [if_neg other]
    show loopFrom p.started connect p.started.upstreams.length 0 (p.started.curLoopIndex + 1) = _
    rw [size]
  exact ⟨_,_,k + 1,whole.trans ran,turned_of_dials inRange atMost early all⟩

end Call

/-- What stays over the calls of a manager, and the range of its index. -/
structure Rotating (p q : Puller) : Prop where
  upstreams : q.upstreams = p.upstreams
  streamName : q.streamName = p.streamName
  inRange : q.InRange
  stays : 0 ≤ p.curLoopIndex → 0 ≤ q.curLoopIndex

theorem Rotating.refl {p : Puller} (inRange : p.InRange) : Rotating p p := ⟨rfl,rfl,inRange,id⟩

theorem Rotating.trans {p q r : Puller} (first : Rotating p q) (second : Rotating q r) : Rotating p r where
  upstreams := second.upstreams.trans first.upstreams
  streamName := second.streamName.trans first.streamName
  inRange := second.inRange
  stays := fun started => second.stays (first.stays started)

theorem Rotating.fits {p q : Puller} (rotating : Rotating p q) (fits : p.Fits) : q.Fits := by
  unfold Puller.Fits
  rw [rotating.upstreams,rotating.streamName]
  exact fits

section Calls

variable {p : Puller} (inRange : p.InRange) (some : 0 < p.upstreams.length) (fits : p.Fits)
include inRange some fits

theorem connectLoop_rotating (connect : Connects) :
    Yields (p.connectLoop connect) fun r => Rotating p r.1 ∧ 0 ≤ r.1.curLoopIndex := by
  obtain ⟨p',d,k,ran,turned⟩ := connectLoop_turns inRange some fits connect
  have few : k - 1 < p.upstreams.length := by
    have positive := turned.some
    have atMost := turned.atMost
    omega
  obtain ⟨low,high⟩ := Puller.turn_bounds inRange few
  rw [turned.last] at ran
  exact ⟨_,ran,⟨rfl,rfl,⟨Int.le_trans (by decide) low,high⟩,fun _ => low⟩,low⟩

theorem start_rotating (hasPublisher : Bool) (connect : Connects) :
    Yields (p.start hasPublisher connect) fun r => Rotating p r.1 := by
  have same : ∀ d, Yields (pure (p,d)) fun r : Puller × Dialed => Rotating p r.1 := fun d => .pure (Rotating.refl inRange)
  unfold Puller.start
  refine .ite (fun _ => same _) fun _ => .ite (fun _ => same _) fun _ => ?_
  cases p.mode with
  | loop => exact (connectLoop_rotating inRange some fits connect).imp fun _ both => both.1
  | hash => exact same _
  | all => exact same _

theorem reconnect_rotating (curTmMs : Int) (relayParams hasPublisher : Bool) (connect : Connects) :
    Yields (p.reconnect curTmMs relayParams hasPublisher connect) fun r => Rotating p r.1 := by
  have begun : Rotating p {p with reconnectBeginTm := curTmMs} := ⟨rfl,rfl,inRange,id⟩
  unfold Puller.reconnect
  refine .ite (fun _ => .pure (Rotating.refl inRange)) fun _ => ?_
  refine .ite (fun _ => .pure begun) fun _ => .ite (fun _ => .pure begun) fun _ => ?_
  have starts := @start_rotating {p with reconnectBeginTm := curTmMs} begun.inRange some (begun.fits fits) hasPublisher connect
  exact starts.bind fun r rotating => .pure (begun.trans rotating)

theorem call_rotating (c : Call) : Yields (p.call c) fun r => Rotating p r.1 := by
  cases c with
  | connectLoop connect => exact (connectLoop_rotating inRange some fits connect).imp fun _ both => both.1
  | start hasPublisher connect => exact start_rotating inRange some fits hasPublisher connect
  | reconnect curTmMs relayParams hasPublisher connect =>
    exact reconnect_rotating inRange some fits curTmMs relayParams hasPublisher connect

theorem run_rotating (calls : List Call) : ∃ q, rotation.run p calls = Option.some q ∧ Rotating p q := by
  induction calls generalizing p with
  | nil => exact ⟨p,rfl,Rotating.refl inRange⟩
  | cons c rest ih =>
    obtain ⟨⟨next,d⟩,called,rotating⟩ := call_rotating inRange some fits c
    have some' : 0 < next.upstreams.length := by rw [rotating.upstreams]; exact some
    obtain ⟨q,ran,later⟩ := ih rotating.inRange some' (rotating.fits fits)
    refine ⟨q,?_,rotating.trans later⟩
    have stepped : rotation.step p c = Option.some next := by
      show (p.call c).toOption.map Prod.fst = _
      rw [called]
      rfl
    rw [Machine.run,stepped]
    exact ran

end Calls

/-- `connect_loop` dials the upstreams in cyclic order from the one behind the current
index on, none twice, until one connects or all have failed. It keeps the index of the
last one, and over any run of calls the index stays in range. -/
theorem connect_loop_rotates (p : Puller) (some : p.upstreams ≠ []) (fits : p.Fits) (inRange : p.InRange) :
    (∀ connect, ∃ p' d k, p.connectLoop connect = .ok (p',d) ∧ Turned p connect p' d k ∧
      0 ≤ p'.curLoopIndex ∧ p'.curLoopIndex < p.upstreams.length) ∧
    ∀ calls, ∃ q, rotation.run p calls = Option.some q ∧ q.upstreams = p.upstreams ∧ q.streamName = p.streamName ∧
      q.InRange ∧ (0 ≤ p.curLoopIndex → 0 ≤ q.curLoopIndex) := by
  have positive : 0 < p.upstreams.length := List.length_pos_iff.mpr some
  constructor
  · intro connect
    obtain ⟨p',d,k,ran,turned⟩ := connectLoop_turns inRange positive fits connect
    obtain ⟨_,ran',rotating,low⟩ := connectLoop_rotating inRange positive fits connect
    cases ran.symm.trans ran'
    have high := rotating.inRange.2
    rw [rotating.upstreams] at high
    exact ⟨p',d,k,ran,turned,low,high⟩
  · intro calls
    obtain ⟨q,ran,rotating⟩ := run_rotating inRange positive fits calls
    exact ⟨q,ran,rotating.upstreams,rotating.streamName,rotating.inRange,rotating.stays⟩

def twoUpstreams : Puller where
  upstreams := [ascii "a:1?streamid=x",ascii "b:2?streamid=y"]
  mode := .loop
  reconnectInterval := 10
  appUplive := ascii "up/live"
  streamName := ascii "s"
  curLoopIndex := -1
  reconnectBeginTm := 0

/-- The first call dials both in vain, the second one reaches the first upstream. -/
theorem connect_loop_rotates_two :
    ∃ q, rotation.run twoUpstreams [.connectLoop (fun _ _ => slsError),.connectLoop (fun _ _ => slsOk)] = some q ∧
      q.InRange := by
  obtain ⟨q,ran,_,_,inRange,_⟩ := (connect_loop_rotates twoUpstreams (by decide)
    (by unfold Puller.Fits; decide) (by unfold Puller.InRange; decide)).2
    [.connectLoop (fun _ _ => slsError),.connectLoop (fun _ _ => slsOk)]
  exact ⟨q,ran,inRange⟩

end SrtLiveServer.UpstreamRotation
