import SrtLiveServer.TimecodeSafety

/-! The `int` arithmetic of `skip_scaling_list`, over the scaling lists of a whole sequence
parameter set. -/
namespace SrtLiveServer.ScalingLists
open Bytes Checked Timecode

/-- One evaluation of `next_scale = (last_scale + delta + 256) % 256`. -/
structure Update where
  lastScale : Int
  delta : Int

def Update.nextScale (u : Update) : Int := (u.lastScale + u.delta + 256).tmod 256

/-- `skip_scaling_list`, with what it evaluates. -/
def updatesFrom : Nat → Int → Int → Read (List Update)
  | 0,_,_ => pure []
  | left + 1,lastScale,nextScale => do
    if (← failed) = true then pure []
    else if nextScale = 0 then updatesFrom left lastScale nextScale
    else do
      let delta ← brSe
      let update : Update := ⟨lastScale,delta⟩
      let later ← updatesFrom left (if update.nextScale = 0 then lastScale else update.nextScale) update.nextScale
      pure (update::later)

def updates (size : Nat) : Read (List Update) := updatesFrom size 8 8

section Lists

variable {α β : Type}

/-- The loop over the scaling lists, with what `list` makes of each. -/
def scalingLists (list : Nat → Read α) : Nat → Nat → Read (List α)
  | 0,_ => pure []
  | left + 1,i => do
    if (← failed) = true then pure []
    else do
      let flag ← brU 1
      let here ← (if flag ≠ 0 then (fun a => [a]) <$> list (if i < 6 then 16 else 64) else pure [])
      let later ← scalingLists list left (i + 1)
      pure (here ++ later)

def chromaLists (list : Nat → Read α) (profileIdc : Nat) : Read (List α) :=
  if profileHasChromaExt profileIdc = true then do
    let chromaFormatIdc ← brUe
    skipIf (chromaFormatIdc = 3) (brU 1)
    skip brUe
    skip brUe
    skip (brU 1)
    let flag ← brU 1
    if flag ≠ 0 then scalingLists list (if chromaFormatIdc = 3 then 12 else 8) 0 else pure []
  else pure []

/-- `parse_sps_h264` up to the last scaling list. -/
def spsLists (list : Nat → Read α) : Read (List α) := do
  let profileIdc ← brU 8
  skip (brU 8)
  skip (brU 8)
  skip brUe
  chromaLists list profileIdc

/-- `parse_sps_h264` behind the scaling lists. -/
def spsBehind : Read (Option Sps) := do
  if (← spsPicOrderCnt) = false then pure none
  else do
    spsFrame
    let vuiPresent ← brU 1
    if (← failed) = true then pure none
    else if vuiPresent = 0 then pure (some ⟨false,0,0,false,24⟩)
    else do
      vuiHead
      let sps ← vuiHrd
      pure (if (← failed) = true then none else some sps)

@[simp] theorem skip_pure (a : α) : skip (pure a : Read α) = pure () := rfl

@[simp] theorem skip_bind (first : Read α) (next : α → Read β) : skip (first >>= next) = first >>= fun a => skip (next a) :=
  bind_assoc first next _

@[simp] theorem skip_skip (program : Read α) : skip (skip program) = skip program := bind_assoc program _ _

@[simp] theorem skip_ite (condition : Prop) [Decidable condition] (first second : Read α) :
    skip (if condition then first else second) = if condition then skip first else skip second := apply_ite skip _ _ _

theorem skipScalingListFrom_updates (left : Nat) (lastScale nextScale : Int) :
    skipScalingListFrom left lastScale nextScale = skip (updatesFrom left lastScale nextScale) := by
  induction left generalizing lastScale nextScale with
  | zero => rfl
  | succ left ih =>
    rw [skipScalingListFrom,updatesFrom]
    simp only [ih,skip_bind,skip_ite,skip_pure]
    rfl

theorem skipScalingLists_updates (left i : Nat) : skipScalingLists left i = skip (scalingLists updates left i) := by
  induction left generalizing i with
  | zero => rfl
  | succ left ih =>
    rw [skipScalingLists,scalingLists]
    unfold skipFlagged skipIf skipScalingList
    simp only [skipScalingListFrom_updates,ih,skip_bind,skip_ite,skip_pure,skip_skip]
    refine bind_congr fun latched => ?_
    split
    · rfl
    · rw [bind_assoc]
      refine bind_congr fun flag => ?_
      split
      · simp only [skip,map_eq_pure_bind,bind_assoc,pure_bind]
        rfl
      · rfl

theorem spsChroma_updates (profileIdc : Nat) : spsChroma profileIdc = skip (chromaLists updates profileIdc) := by
  unfold spsChroma chromaLists skipFlagged skipIf
  simp only [skipScalingLists_updates,skip_bind,skip_ite,skip_pure,skip_skip]

/-- The lists are those of the parser. -/
theorem parseSps_updates : parseSps = (skip (spsLists updates) >>= fun _ => spsBehind) := by
  unfold parseSps spsLists spsBehind
  simp only [spsChroma_updates,skip_bind,bind_assoc]

theorem scalingLists_map (f : α → β) (list : Nat → Read α) (left i : Nat) :
    scalingLists (fun size => f <$> list size) left i = List.map f <$> scalingLists list left i := by
  induction left generalizing i with
  | zero => rfl
  | succ left ih =>
    rw [scalingLists,scalingLists]
    simp only [ih]
    simp only [map_bind]
    refine bind_congr fun latched => ?_
    split
    · rfl
    · simp only [map_bind]
      refine bind_congr fun flag => ?_
      split
      · simp only [map_eq_pure_bind,bind_assoc,pure_bind,List.map_append,List.map_cons,List.map_nil]
      · simp only [map_eq_pure_bind,bind_assoc,pure_bind,List.map_append,List.map_nil]

theorem chromaLists_map (f : α → β) (list : Nat → Read α) (profileIdc : Nat) :
    chromaLists (fun size => f <$> list size) profileIdc = List.map f <$> chromaLists list profileIdc := by
  unfold chromaLists
  split
  · simp only [scalingLists_map,map_bind]
    refine bind_congr fun format => bind_congr fun _ => bind_congr fun _ => bind_congr fun _ => bind_congr fun _ => ?_
    refine bind_congr fun flag => ?_
    split
    · rfl
    · rfl
  · rfl

theorem spsLists_map (f : α → β) (list : Nat → Read α) :
    spsLists (fun size => f <$> list size) = List.map f <$> spsLists list := by
  unfold spsLists
  simp only [chromaLists_map,map_bind]

theorem scalingLists_always {list : Nat → Read α} {post : α → Prop} (always : ∀ size, Always (list size) post) (left i : Nat) :
    Always (scalingLists list left i) fun lists => ∀ a ∈ lists, post a := by
  have none : ∀ a ∈ ([] : List α), post a := fun a member => nomatch member
  induction left generalizing i with
  | zero => exact Always.pure none
  | succ left ih =>
    rw [scalingLists]
    refine Always.after BitReader.Failed fun latched => ?_
    refine Always.ite (fun _ => Always.pure none) fun _ => ?_
    refine Always.after BitReader.Failed fun flag => ?_
    have here : Always (if flag ≠ 0 then (fun a => [a]) <$> list (if i < 6 then 16 else 64) else pure [])
        fun lists => ∀ a ∈ lists, post a := by
      refine Always.ite (fun _ => ?_) fun _ => Always.pure none
      rw [map_eq_pure_bind]
      refine (always _).bind fun a met => Always.pure fun other member => ?_
      rw [List.mem_singleton.mp member]
      exact met
    refine here.bind fun first met => (ih (i + 1)).bind fun later met' => Always.pure fun a member => ?_
    exact (List.mem_append.mp member).elim (met a) (met' a)

theorem spsLists_always {list : Nat → Read α} {post : α → Prop} (always : ∀ size, Always (list size) post) :
    Always (spsLists list) fun lists => ∀ a ∈ lists, post a := by
  have none : ∀ a ∈ ([] : List α), post a := fun a member => nomatch member
  unfold spsLists
  refine Always.after BitReader.Failed fun profileIdc => ?_
  refine Always.after BitReader.Failed fun _ => Always.after BitReader.Failed fun _ => Always.after BitReader.Failed fun _ => ?_
  unfold chromaLists
  refine Always.ite (fun _ => ?_) fun _ => Always.pure none
  refine Always.after BitReader.Failed fun format => Always.after BitReader.Failed fun _ => ?_
  refine Always.after BitReader.Failed fun _ => Always.after BitReader.Failed fun _ => Always.after BitReader.Failed fun _ => ?_
  refine Always.after BitReader.Failed fun flag => ?_
  exact Always.ite (fun _ => scalingLists_always always _ 0) fun _ => Always.pure none

end Lists

section Codes

theorem leadingZeros_always (bound zeros : Nat) (few : zeros ≤ 31) (enough : 32 ≤ bound + zeros) :
    Always (leadingZeros bound zeros) fun found => ∀ z, found = some z → z ≤ 31 := by
  induction bound generalizing zeros with
  | zero => omega
  | succ bound ih =>
    have found : ∀ z, some zeros = some z → z ≤ 31 := by
      rintro z ⟨⟩
      exact few
    have nothing : ∀ z, none = some z → z ≤ 31 := by
      rintro z ⟨⟩
    rw [leadingZeros]
    refine Always.after BitReader.Failed fun latched => ?_
    refine Always.ite (fun _ => Always.pure found) fun _ => ?_
    refine Always.after BitReader.Failed fun bit => ?_
    refine Always.ite (fun _ => Always.pure found) fun _ => ?_
    refine Always.ite (fun _ => ?_) fun more => ih (zeros + 1) (by omega) (by omega)
    exact Always.after BitReader.Failed fun _ => Always.pure nothing

theorem brUe_always : Always brUe fun k => k < 2 ^ 32 - 1 := by
  unfold brUe
  refine (leadingZeros_always 32 0 (by decide) (by decide)).bind fun found few => ?_
  cases found with
  | none => exact Always.pure (by decide)
  | some zeros =>
    refine Always.after BitReader.Failed fun latched => ?_
    refine Always.ite (fun _ => Always.pure (by decide)) fun _ => ?_
    refine (brU_always zeros).bind fun value small => Always.pure ?_
    have most : 2 ^ zeros ≤ 2 ^ 31 := Nat.pow_le_pow_right (by decide) (few zeros rfl)
    omega

/-- `br_se` returns any `int` but the least one. -/
theorem brSe_always : Always brSe fun delta => -2 ^ 31 < delta ∧ delta < 2 ^ 31 := by
  unfold brSe
  refine brUe_always.bind fun k small => Always.pure ?_
  split
  · omega
  · omega

end Codes

def FitsInt (x : Int) : Prop := -2 ^ 31 ≤ x ∧ x < 2 ^ 31

instance decidableFitsInt (x : Int) : Decidable (FitsInt x) := inferInstanceAs (Decidable (_ ∧ _))

/-- Both additions are evaluated in the range of an `int`, and lead from a scale to a scale. -/
def Update.InRange (u : Update) : Prop :=
  (0 ≤ u.lastScale ∧ u.lastScale ≤ 255) ∧ FitsInt (u.lastScale + u.delta) ∧ FitsInt (u.lastScale + u.delta + 256) ∧
    0 ≤ u.nextScale ∧ u.nextScale ≤ 255

instance decidableInRange (u : Update) : Decidable u.InRange := inferInstanceAs (Decidable (_ ∧ _))

/-- The codes of a list, up to one behind which 8 and the codes so far add up to a multiple of 256. -/
def deltasFrom : Nat → Int → Read (List Int)
  | 0,_ => pure []
  | left + 1,sum => do
    if (← failed) = true then pure []
    else do
      let delta ← brSe
      if (sum + delta) % 256 = 0 then pure [delta]
      else do
        let later ← deltasFrom left (sum + delta)
        pure (delta::later)

def deltas (size : Nat) : Read (List Int) := deltasFrom size 8

/-- No code leads from the scale that `sum` stands for past an `int` or below zero, unless to
a multiple of 256. -/
def Tame : Int → List Int → Prop
  | _,[] => True
  | sum,delta::rest => (sum % 256 + delta + 256 < 2 ^ 31 ∧ (0 ≤ sum % 256 + delta + 256 ∨ (sum + delta) % 256 = 0)) ∧
      Tame (sum + delta) rest

section Scales

theorem nextScale_mod (u : Update) : u.nextScale % 256 = (u.lastScale + u.delta) % 256 := by
  unfold Update.nextScale
  rw [Int.tmod_def]
  generalize (u.lastScale + u.delta + 256).tdiv 256 = quotient
  omega

theorem nextScale_bound (u : Update) : -256 < u.nextScale ∧ u.nextScale < 256 ∧
    (0 ≤ u.lastScale + u.delta + 256 → 0 ≤ u.nextScale) ∧ (u.lastScale + u.delta + 256 ≤ 0 → u.nextScale ≤ 0) := by
  unfold Update.nextScale
  generalize u.lastScale + u.delta + 256 = x
  obtain positive | negative := Int.le_total 0 x
  · rw [Int.tmod_eq_emod_of_nonneg positive]
    omega
  · have mirrored : x.tmod 256 = -((-x) % 256) := by
      rw [← Int.tmod_eq_emod_of_nonneg (by omega),Int.neg_tmod,Int.neg_neg]
    rw [mirrored]
    omega

theorem nextScale_zero (u : Update) : u.nextScale = 0 ↔ (u.lastScale + u.delta) % 256 = 0 := by
  have residue := nextScale_mod u
  have bound := nextScale_bound u
  constructor
  · intro zero
    rw [← residue,zero]
    rfl
  · intro zero
    omega

/-- Each update goes on from the scale that the one before it led to. -/
def Chained : Int → List Update → Prop
  | _,[] => True
  | last,u::rest => u.lastScale = last ∧ (-2 ^ 31 < u.delta ∧ u.delta < 2 ^ 31) ∧ Chained u.nextScale rest

theorem updatesFrom_zero (left : Nat) (lastScale : Int) : updatesFrom left lastScale 0 = pure [] := by
  induction left with
  | zero => rfl
  | succ left ih =>
    rw [updatesFrom,if_pos rfl,ih]
    simp only [ite_self]
    rfl

theorem updatesFrom_chained (left : Nat) {lastScale nextScale : Int} (nonzero : nextScale ≠ 0) :
    Always (updatesFrom left lastScale nextScale) (Chained lastScale) := by
  induction left generalizing lastScale nextScale with
  | zero => exact Always.pure trivial
  | succ left ih =>
    rw [updatesFrom]
    refine Always.after BitReader.Failed fun latched => ?_
    refine Always.ite (fun _ => Always.pure trivial) fun _ => ?_
    rw [if_neg nonzero]
    refine brSe_always.bind fun delta bound => ?_
    dsimp only
    by_cases zero : Update.nextScale ⟨lastScale,delta⟩ = 0
    · rw [zero,updatesFrom_zero]
      exact Always.pure ⟨rfl,bound,trivial⟩
    · rw [if_neg zero]
      exact (ih zero).bind fun later chained => Always.pure ⟨rfl,bound,chained⟩

theorem deltasFrom_updates (left : Nat) {lastScale nextScale sum : Int} (residue : lastScale % 256 = sum % 256)
    (nonzero : nextScale ≠ 0) : deltasFrom left sum = List.map Update.delta <$> updatesFrom left lastScale nextScale := by
  induction left generalizing lastScale nextScale sum with
  | zero => rfl
  | succ left ih =>
    rw [deltasFrom,updatesFrom,if_neg nonzero,map_bind]
    refine bind_congr fun latched => ?_
    split
    · rfl
    · rw [map_bind]
      refine bind_congr fun delta => ?_
      have next := nextScale_mod ⟨lastScale,delta⟩
      have zero := nextScale_zero ⟨lastScale,delta⟩
      dsimp only at next zero ⊢
      have same : (lastScale + delta) % 256 = (sum + delta) % 256 := by omega
      rw [same] at next zero
      by_cases ends : (sum + delta) % 256 = 0
      · rw [if_pos ends,zero.mpr ends,updatesFrom_zero]
        rfl
      · have goes := mt zero.mp ends
        rw [if_neg ends,if_neg goes,ih next goes]
        simp only [map_eq_pure_bind,bind_assoc,pure_bind,List.map_cons]

theorem inRange_iff {u : Update} {sum : Int} (last : u.lastScale = sum % 256) (bound : -2 ^ 31 < u.delta ∧ u.delta < 2 ^ 31) :
    u.InRange ↔ sum % 256 + u.delta + 256 < 2 ^ 31 ∧ (0 ≤ sum % 256 + u.delta + 256 ∨ (sum + u.delta) % 256 = 0) := by
  have residue := nextScale_mod u
  have next := nextScale_bound u
  unfold Update.InRange FitsInt
  rw [last] at residue next ⊢
  constructor
  · rintro ⟨_,_,high,low⟩
    omega
  · rintro ⟨high,low⟩
    omega

theorem chained_inRange {us : List Update} {sum : Int} (chained : Chained (sum % 256) us) :
    (∀ u ∈ us, u.InRange) ↔ Tame sum (us.map Update.delta) := by
  induction us generalizing sum with
  | nil => exact ⟨fun _ => trivial,fun _ u member => nomatch member⟩
  | cons u rest ih =>
    obtain ⟨last,bound,later⟩ := chained
    have step := inRange_iff last bound
    rw [List.forall_mem_cons,List.map_cons,Tame,← step]
    refine and_congr_right fun inRange => ih ?_
    have scale : u.nextScale = (sum + u.delta) % 256 := by
      have residue := nextScale_mod u
      obtain ⟨_,_,_,low,high⟩ := inRange
      omega
    rw [← scale]
    exact later

end Scales

/-- The parser evaluates these updates and goes on behind them. They stay in range exactly
if no scaling list of the parameter set holds a code that leads out. -/
theorem scaling_in_range_iff (rbsp : Text) :
    (parseSps = skip (spsLists updates) >>= fun _ => spsBehind) ∧
      ∃ lists codes r, (spsLists updates).run ⟨rbsp,0,false⟩ = .ok (lists,r) ∧ (spsLists deltas).run ⟨rbsp,0,false⟩ = .ok (codes,r) ∧
        ((∀ list ∈ lists, ∀ u ∈ list, u.InRange) ↔ ∀ list ∈ codes, Tame 8 list) := by
  have each : ∀ size, Always (updates size) (Chained 8) := fun size => updatesFrom_chained size (by decide)
  obtain ⟨⟨lists,r⟩,ran,chained⟩ := spsLists_always each ⟨rbsp,0,false⟩
  have read : deltas = fun size => List.map Update.delta <$> updates size :=
    funext fun size => deltasFrom_updates size rfl (by decide)
  refine ⟨parseSps_updates,lists,lists.map (List.map Update.delta),r,ran,?_,?_⟩
  · rw [read,spsLists_map,map_eq_pure_bind,StateT.run_bind,ran]
    rfl
  · rw [List.forall_mem_map]
    exact forall₂_congr fun list member => @chained_inRange list 8 (chained list member)

/-- The first code of the first list is the largest there is. -/
def hostileSps : Text := [0x64,0x00,0x1E,0xAD,0x80,0x00,0x00,0x00,0xFF,0xFF,0xFF,0xFE]

theorem largest_delta_overflows :
    ¬ ∀ rbsp : Text, ∃ lists r, (spsLists updates).run ⟨rbsp,0,false⟩ = .ok (lists,r) ∧ ∀ list ∈ lists, ∀ u ∈ list, u.InRange := by
  intro claim
  obtain ⟨lists,r,ran,inRange⟩ := claim hostileSps
  have seen : ((spsLists updates).run ⟨hostileSps,0,false⟩).toOption.map
      (fun result => decide (∀ list ∈ result.1, ∀ u ∈ list, u.InRange)) = some false := by decide +kernel
  rw [ran] at seen
  exact of_decide_eq_false (Option.some.inj seen) inRange

end SrtLiveServer.ScalingLists
