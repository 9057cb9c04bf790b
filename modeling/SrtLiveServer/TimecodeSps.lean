import SrtLiveServer.TimecodeSei

/-! H.264 sequence parameter sets as a sender encodes them, and what the parser of the
timecode scanner makes of a whole one and of one that is cut off. -/
namespace SrtLiveServer.Timecode
open Bytes Checked Bits

section Parses

variable {α β : Type}

/-- Cut off before the last of these bits, the program fails. -/
def Starves (program : Read α) (bits : List Bool) : Prop :=
  ∀ r missing, r.err = false → missing ≠ [] → r.rest ++ missing = bits →
    Yields (program.run r) fun result => result.2.Failed

structure Parses (program : Read α) (bits : List Bool) (a : α) : Prop where
  reads : Reads program bits a
  starves : Starves program bits

theorem Parses.pure (a : α) : Parses (pure a) [] a where
  reads := Reads.pure a
  starves := fun _ _ _ some none => absurd (List.append_eq_nil_iff.mp none).2 some

theorem Parses.bind {program : Read α} {next : α → Read β} {first second : List Bool} {a : α} {b : β}
    [ends : ∀ a, Ends BitReader.Failed (next a)] (parses : Parses program first a) (nextParses : Parses (next a) second b) :
    Parses (program >>= next) (first ++ second) b where
  reads := parses.reads.bind nextParses.reads
  starves := by
    intro r missing fine some cut
    rw [List.append_eq_append_iff] at cut
    obtain ⟨left,whole,rest⟩ | ⟨left,whole,rest⟩ := cut
    · by_cases none : left = []
      · subst none
        rw [List.append_nil] at whole
        obtain ⟨r',ran,fine',rest'⟩ := parses.reads r [] fine (by rw [List.append_nil]; exact whole.symm)
        obtain ⟨result,failing,fails⟩ := nextParses.starves r' missing fine' some (by rw [rest']; exact rest)
        refine ⟨result,?_,fails⟩
        rw [StateT.run_bind,ran,← failing]
        rfl
      · -- what `next` makes of a value read after the failure does not matter
        obtain ⟨⟨a',r'⟩,ran,fails⟩ := parses.starves r left fine none whole.symm
        obtain ⟨result,ran',stays⟩ := (ends a').ends r'
        refine ⟨result,?_,stays fails⟩
        rw [StateT.run_bind,ran,← ran']
        rfl
    · obtain ⟨r',ran,fine',rest'⟩ := parses.reads r left fine whole
      obtain ⟨result,failing,fails⟩ := nextParses.starves r' missing fine' some (by rw [rest']; exact rest.symm)
      refine ⟨result,?_,fails⟩
      rw [StateT.run_bind,ran,← failing]
      rfl

theorem Parses.next {program : Read α} {next : α → Read β} {first : List Bool} {later : List (List Bool)} {a : α} {b : β}
    [∀ a, Ends BitReader.Failed (next a)] (parses : Parses program first a) (nextParses : Parses (next a) later.flatten b) :
    Parses (program >>= next) (first::later).flatten b := parses.bind nextParses

theorem Parses.check {next : Bool → Read β} {bits : List Bool} {b : β} [∀ a, Ends BitReader.Failed (next a)]
    (nextParses : Parses (next false) bits b) : Parses (failed >>= next) bits b := by
  have fine : Parses failed [] false := by
    refine ⟨fun r _ fine rest => ⟨r,by rw [← fine]; rfl,fine,rest⟩,fun _ _ _ some none => ?_⟩
    exact absurd (List.append_eq_nil_iff.mp none).2 some
  exact fine.bind nextParses

theorem Parses.brU {n : Nat} {bits : List Bool} (width : bits.length = n) (positive : 0 < n) (small : n ≤ 32) :
    Parses (brU n) bits (ofBits bits) where
  reads := Reads.brU width positive small
  starves := by
    intro r missing fine some cut
    have lost : 0 < missing.length := List.length_pos_iff.mpr some
    have long := r.rest_length
    have total := congrArg List.length cut
    rw [List.length_append,width] at total
    exact ⟨_,brU_short fine (by omega),rfl⟩

theorem Parses.field {n : Nat} (value : Fin (2 ^ n)) (positive : 0 < n) (small : n ≤ 32) :
    Parses (Timecode.brU n) (toBits n value) value := by
  have parses := Parses.brU (toBits_length n value) positive small
  rw [ofBits_toBits_of_lt value.isLt] at parses
  exact parses

theorem Parses.flag (bit : Bool) : Parses (Timecode.brU 1) [bit] bit.toNat where
  reads := Reads.flag bit
  starves := (Parses.brU (show [bit].length = 1 from rfl) (by decide) (by decide)).starves

theorem Parses.skip {field : Read α} {bits : List Bool} {a : α} (parses : Parses field bits a) :
    Parses (skip field) bits () := by
  have whole : Parses (Timecode.skip field) (bits ++ []) () := parses.bind (Parses.pure ())
  rw [List.append_nil] at whole
  exact whole

theorem Parses.skipIf {condition : Prop} [Decidable condition] {field : Read α} {bits : List Bool}
    (present : condition → Parses (Timecode.skip field) bits ()) (absent : ¬ condition → bits = []) :
    Parses (skipIf condition field) bits () := by
  unfold Timecode.skipIf
  by_cases here : condition
  · rw [if_pos here]
    exact present here
  · rw [if_neg here,absent here]
    exact Parses.pure ()

theorem leadingZeros_later (more zeros : Nat) (enough : 31 ≤ more + zeros) :
    Ends BitReader.Failed (if 31 < zeros + 1 then do
      setErr
      pure none
    else leadingZeros more (zeros + 1)) := by
  by_cases many : 31 < zeros + 1
  · rw [if_pos many]
    infer_instance
  · rw [if_neg many]
    exact leadingZeros_ends more (zeros + 1) (by omega) (by omega)

theorem leadingZeros_parses {zeros found more : Nat} (few : found + zeros ≤ 31) (enough : 31 ≤ more + found) :
    Parses (leadingZeros (more + 1) found) (List.replicate zeros false ++ [true]) (some (found + zeros)) := by
  induction zeros generalizing found more with
  | zero =>
    have later := leadingZeros_later more found enough
    rw [leadingZeros]
    refine Parses.check ?_
    rw [if_neg (by decide)]
    show Parses _ ([true] ++ []) _
    refine (Parses.flag true).bind ?_
    rw [if_pos (by decide)]
    exact Parses.pure _
  | succ zeros ih =>
    have later := leadingZeros_later more found enough
    obtain ⟨more,rfl⟩ : ∃ n, more = n + 1 := ⟨more - 1,by omega⟩
    have further := @ih (found + 1) more (by omega) (by omega)
    rw [Nat.add_right_comm] at further
    rw [leadingZeros]
    refine Parses.check ?_
    rw [if_neg (by decide)]
    refine (Parses.flag false).bind ?_
    rw [if_neg (by decide),if_neg (by omega)]
    exact further

theorem brUe_parses (k : Fin (2 ^ 32 - 1)) : Parses brUe (expGolomb k) k := by
  have few : ((k : Nat) + 1).log2 < 32 := by
    have small := k.isLt
    rw [Nat.log2_lt (Nat.succ_ne_zero _)]
    omega
  have shape : expGolomb k = (List.replicate ((k : Nat) + 1).log2 false ++ [true]) ++ toBits ((k : Nat) + 1).log2 (k + 1) := by
    rw [List.append_assoc]
    rfl
  have zeros := @leadingZeros_parses ((k : Nat) + 1).log2 0 31 (by omega) (by omega)
  have value := expGolomb_value k
  rw [shape]
  unfold brUe
  refine @Parses.bind _ _ _ _ _ _ _ _ (fun found => ?_) zeros ?_
  · cases found with
    | none => infer_instance
    | some zeros => infer_instance
  rw [Nat.zero_add]
  refine Parses.check ?_
  generalize ((k : Nat) + 1).log2 = width at few value ⊢
  by_cases none : width = 0
  · subst none
    rw [if_pos (Or.inr rfl)]
    have zero : (k : Nat) = 0 := by simpa [toBits,ofBits] using value.symm
    rw [zero]
    exact Parses.pure 0
  · rw [if_neg (by simp [none])]
    have read := Parses.brU (toBits_length width ((k : Nat) + 1)) (Nat.pos_of_ne_zero none) (Nat.le_of_lt few)
    have sum : Parses (pure (2 ^ width - 1 + ofBits (toBits width ((k : Nat) + 1))) : Read Nat) [] k := by
      rw [value]
      exact Parses.pure _
    rw [← List.append_nil (toBits width ((k : Nat) + 1))]
    exact read.bind sum

theorem brSe_parses {v : Int} (low : -2 ^ 31 < v) (high : v < 2 ^ 31) : Parses brSe (expGolomb (signedCode v)) v := by
  have small : signedCode v < 2 ^ 32 - 1 := by
    unfold signedCode
    split <;> omega
  have read := brUe_parses ⟨signedCode v,small⟩
  have value : Parses (pure (if signedCode v % 2 = 1 then (((signedCode v + 1) / 2 : Nat) : Int) else
      -((signedCode v / 2 : Nat) : Int)) : Read Int) [] v := by
    rw [signedCode_value]
    exact Parses.pure v
  rw [← List.append_nil (expGolomb (signedCode v))]
  exact read.bind value

end Parses

section Syntax

/-! 7.3.2.1.1 and Annex E of H.264; `Fin (2 ^ n)` is a field of `n` bits. -/

abbrev Ue : Type := Fin (2 ^ 32 - 1)

instance codeCount_neZero : NeZero (2 ^ 32 - 1) := ⟨by decide⟩

structure Se where
  value : Int
  low : -2 ^ 31 < value
  high : value < 2 ^ 31

def ueBits (k : Ue) : List Bool := expGolomb k

def seBits (v : Se) : List Bool := expGolomb (signedCode v.value)

/-- A flag, and what it announces. -/
def optionBits {α : Type} (bits : α → List Bool) : Option α → List Bool
  | none => [false]
  | some a => true::bits a

/-- The scales that are coded, `size` at most; behind them the last one is repeated. -/
structure ScalingList (size : Nat) where
  scales : List Nat
  ranged : ∀ scale ∈ scales, 0 < scale ∧ scale < 256
  short : scales.length ≤ size

/-- From -128 to 127. -/
def deltaScale (last next : Nat) : Int := ((next : Int) - last).bmod 256

/-- Each scale as the difference to the last one; the next scale zero ends a short list. -/
def scaleBits : Nat → Nat → List Nat → List Bool
  | 0,_,_ => []
  | _ + 1,last,[] => expGolomb (signedCode (deltaScale last 0))
  | left + 1,last,scale::scales => expGolomb (signedCode (deltaScale last scale)) ++ scaleBits left scale scales

def ScalingList.bits {size : Nat} (list : ScalingList size) : List Bool := scaleBits size 8 list.scales

def listSize (i : Nat) : Nat := if i < 6 then 16 else 64

abbrev ScalingMatrix : Type := (i : Nat) → Option (ScalingList (listSize i))

def matrixBits (matrix : ScalingMatrix) (first lists : Nat) : List Bool :=
  (List.range' first lists).flatMap fun i => optionBits ScalingList.bits (matrix i)

structure ChromaExt where
  chromaFormatIdc : Fin 4
  separateColourPlane : Bool
  bitDepthLuma : Ue
  bitDepthChroma : Ue
  qpprimeYZeroTransformBypass : Bool
  scalingMatrix : Option ScalingMatrix

def ChromaExt.bits (c : ChromaExt) : List Bool :=
  [expGolomb c.chromaFormatIdc,if c.chromaFormatIdc = 3 then [c.separateColourPlane] else [],ueBits c.bitDepthLuma,
    ueBits c.bitDepthChroma,[c.qpprimeYZeroTransformBypass],
    optionBits (fun matrix => matrixBits matrix 0 (if c.chromaFormatIdc ≠ 3 then 8 else 12)) c.scalingMatrix].flatten

inductive PicOrderCnt where
  | lsb (log2MaxLsb : Ue)
  | cycle (deltaAlwaysZero : Bool) (offsetForNonRefPic offsetForTopToBottomField : Se) (offsetsForRefFrame : List Se)
    (few : offsetsForRefFrame.length ≤ 255)
  | outputOrder

def PicOrderCnt.bits : PicOrderCnt → List Bool
  | lsb log2MaxLsb => [expGolomb 0,ueBits log2MaxLsb].flatten
  | cycle deltaAlwaysZero nonRef topToBottom offsets _ =>
    [expGolomb 1,[deltaAlwaysZero],seBits nonRef,seBits topToBottom,expGolomb offsets.length,offsets.flatMap seBits].flatten
  | outputOrder => expGolomb 2

structure Frame where
  maxNumRefFrames : Ue
  gapsAllowed : Bool
  picWidthInMbs : Ue
  picHeightInMapUnits : Ue
  /-- `none` if there are frame macroblocks only. -/
  mbAdaptiveFrameField : Option Bool
  direct8x8Inference : Bool
  cropping : Option (Ue × Ue × Ue × Ue)

def Frame.bits (f : Frame) : List Bool :=
  [ueBits f.maxNumRefFrames,[f.gapsAllowed],ueBits f.picWidthInMbs,ueBits f.picHeightInMapUnits,[f.mbAdaptiveFrameField.isNone],
    f.mbAdaptiveFrameField.toList,[f.direct8x8Inference],
    optionBits (fun (left,right,top,bottom) => [ueBits left,ueBits right,ueBits top,ueBits bottom].flatten) f.cropping].flatten

structure Cpb where
  bitRate : Ue
  cpbSize : Ue
  cbr : Bool

def Cpb.bits (cpb : Cpb) : List Bool := [ueBits cpb.bitRate,ueBits cpb.cpbSize,[cpb.cbr]].flatten

structure Hrd where
  first : Cpb
  more : List Cpb
  bitRateScale : Fin (2 ^ 4)
  cpbSizeScale : Fin (2 ^ 4)
  initialCpbRemovalDelayLengthMinus1 : Fin (2 ^ 5)
  cpbRemovalDelayLengthMinus1 : Fin (2 ^ 5)
  dpbOutputDelayLengthMinus1 : Fin (2 ^ 5)
  timeOffsetLength : Fin (2 ^ 5)
  few : more.length ≤ 31

def Hrd.bits (hrd : Hrd) : List Bool :=
  [expGolomb hrd.more.length,toBits 4 hrd.bitRateScale,toBits 4 hrd.cpbSizeScale,(hrd.first::hrd.more).flatMap Cpb.bits,
    toBits 5 hrd.initialCpbRemovalDelayLengthMinus1,toBits 5 hrd.cpbRemovalDelayLengthMinus1,
    toBits 5 hrd.dpbOutputDelayLengthMinus1,toBits 5 hrd.timeOffsetLength].flatten

def Hrd.lengths (hrd : Hrd) : HrdLengths :=
  ⟨hrd.cpbRemovalDelayLengthMinus1 + 1,hrd.dpbOutputDelayLengthMinus1 + 1,hrd.timeOffsetLength⟩

inductive AspectRatio where
  | idc (aspectRatioIdc : Fin (2 ^ 8)) (known : aspectRatioIdc ≠ 255)
  | extendedSar (width height : Fin (2 ^ 16))

def AspectRatio.bits : AspectRatio → List Bool
  | idc aspectRatioIdc _ => toBits 8 aspectRatioIdc
  | extendedSar width height => [toBits 8 255,toBits 16 width,toBits 16 height].flatten

structure VideoSignal where
  videoFormat : Fin (2 ^ 3)
  fullRange : Bool
  colour : Option (Fin (2 ^ 8) × Fin (2 ^ 8) × Fin (2 ^ 8))

def VideoSignal.bits (v : VideoSignal) : List Bool :=
  [toBits 3 v.videoFormat,[v.fullRange],
    optionBits (fun (primaries,transfer,matrix) => [toBits 8 primaries,toBits 8 transfer,toBits 8 matrix].flatten) v.colour].flatten

structure Timing where
  numUnitsInTick : Fin (2 ^ 32)
  timeScale : Fin (2 ^ 32)
  fixedFrameRate : Bool

def Timing.bits (t : Timing) : List Bool := [toBits 32 t.numUnitsInTick,toBits 32 t.timeScale,[t.fixedFrameRate]].flatten

structure BitstreamRestriction where
  motionVectorsOverPicBoundaries : Bool
  bounds : Fin 6 → Ue

def BitstreamRestriction.bits (b : BitstreamRestriction) : List Bool :=
  b.motionVectorsOverPicBoundaries::(List.ofFn b.bounds).flatMap ueBits

structure Vui where
  aspectRatio : Option AspectRatio
  overscanAppropriate : Option Bool
  videoSignal : Option VideoSignal
  chromaLoc : Option (Ue × Ue)
  timing : Option Timing
  nalHrd : Option Hrd
  vclHrd : Option Hrd
  lowDelayHrd : Bool
  picStructPresent : Bool
  bitstreamRestriction : Option BitstreamRestriction

def Vui.hrdPresent (vui : Vui) : Bool := vui.nalHrd.isSome || vui.vclHrd.isSome

/-- The fields before the HRDs. -/
def Vui.head (vui : Vui) : List Bool :=
  [optionBits AspectRatio.bits vui.aspectRatio,optionBits (fun b => [b]) vui.overscanAppropriate,
    optionBits VideoSignal.bits vui.videoSignal,optionBits (fun (top,bottom) => [ueBits top,ueBits bottom].flatten) vui.chromaLoc,
    optionBits Timing.bits vui.timing].flatten

/-- The HRDs, up to `pic_struct_present_flag`. -/
def Vui.hrds (vui : Vui) : List Bool :=
  [optionBits Hrd.bits vui.nalHrd,optionBits Hrd.bits vui.vclHrd,if vui.hrdPresent = true then [vui.lowDelayHrd] else [],
    [vui.picStructPresent]].flatten

/-- The last HRD present gives the lengths. -/
def Vui.carried (vui : Vui) : Sps :=
  let lengths := ((vui.vclHrd.or vui.nalHrd).map Hrd.lengths).getD ⟨0,0,24⟩
  ⟨vui.hrdPresent,lengths.cpbRemoval,lengths.dpbOutput,vui.picStructPresent,lengths.timeOffset⟩

structure SeqParameterSet where
  profileIdc : Fin (2 ^ 8)
  constraintFlags : Fin (2 ^ 8)
  levelIdc : Fin (2 ^ 8)
  seqParameterSetId : Ue
  chroma : ChromaExt
  log2MaxFrameNum : Ue
  picOrderCnt : PicOrderCnt
  frame : Frame
  vui : Option Vui

/-- The profiles in which the chroma fields are there. -/
def SeqParameterSet.hasChroma (sps : SeqParameterSet) : Bool :=
  sps.profileIdc.val ∈ [100,110,122,244,44,83,86,118,128,138,139,134,135]

/-- Up to `pic_struct_present_flag`, or to `vui_parameters_present_flag` if there is no VUI. -/
def SeqParameterSet.head (sps : SeqParameterSet) : List Bool :=
  [toBits 8 sps.profileIdc,toBits 8 sps.constraintFlags,toBits 8 sps.levelIdc,ueBits sps.seqParameterSetId,
    if sps.hasChroma = true then sps.chroma.bits else [],ueBits sps.log2MaxFrameNum ++ sps.picOrderCnt.bits,sps.frame.bits,
    optionBits (fun vui => vui.head ++ vui.hrds) sps.vui].flatten

def SeqParameterSet.bits (sps : SeqParameterSet) : List Bool :=
  sps.head ++ match sps.vui with
    | none => []
    | some vui => optionBits BitstreamRestriction.bits vui.bitstreamRestriction

def SeqParameterSet.carried (sps : SeqParameterSet) : Sps :=
  match sps.vui with
  | none => ⟨false,0,0,false,24⟩
  | some vui => vui.carried

/-- The parameter set with its trailing bits. -/
def SeqParameterSet.IsRbsp (sps : SeqParameterSet) (rbsp : Text) : Prop :=
  ∃ zeros, ofBytes rbsp = sps.bits ++ true::List.replicate zeros false

end Syntax

section Fields

set_option synthInstance.maxSize 10000

variable {α β : Type}

theorem Parses.ue (k : Ue) : Parses brUe (ueBits k) k := brUe_parses k

theorem Parses.small {k : Nat} (small : k < 2 ^ 32 - 1) : Parses brUe (expGolomb k) k := brUe_parses ⟨k,small⟩

theorem Parses.se (v : Se) : Parses brSe (seBits v) v.value := brSe_parses v.low v.high

theorem Parses.last {program : Read α} {next : α → Read β} {first second : List Bool} {a : α} {b : β}
    [∀ a, Ends BitReader.Failed (next a)] (parses : Parses program first a) (nextParses : Parses (next a) second b) :
    Parses (program >>= next) [first,second].flatten b := by
  refine parses.next ?_
  rw [List.flatten_cons,List.flatten_nil,List.append_nil]
  exact nextParses

theorem Parses.option {field : Read α} [Ends BitReader.Failed field] {bits : β → List Bool} {value : β → α}
    (parses : ∀ b, Parses field (bits b) (value b)) (announced : Option β) :
    Parses (skipFlagged field) (optionBits bits announced) () := by
  unfold skipFlagged
  cases announced with
  | none =>
    show Parses _ ([false] ++ []) ()
    refine (Parses.flag false).bind (Parses.skipIf (fun present => ?_) fun _ => rfl)
    exact absurd rfl present
  | some b =>
    show Parses _ ([true] ++ bits b) ()
    refine (Parses.flag true).bind (Parses.skipIf (fun _ => (parses b).skip) fun absent => ?_)
    exact absurd (by decide) absent

theorem Parses.optionSkip {field : Read Unit} [Ends BitReader.Failed field] {bits : β → List Bool}
    (parses : ∀ b, Parses field (bits b) ()) (announced : Option β) :
    Parses (skipFlagged field) (optionBits bits announced) () := Parses.option parses announced

theorem Parses.times {field : Read α} [Ends BitReader.Failed field] {bits : β → List Bool} {value : β → α}
    (parses : ∀ b, Parses field (bits b) (value b)) (items : List β) :
    Parses (skipTimes field items.length) (items.flatMap bits) () := by
  induction items with
  | nil => exact Parses.pure ()
  | cons item items ih =>
    rw [List.length_cons,skipTimes,List.flatMap_cons]
    refine Parses.check ?_
    rw [if_neg (by decide)]
    exact (parses item).skip.bind ih

theorem skipScalingListFrom_zero (left : Nat) (lastScale : Int) : Parses (skipScalingListFrom left lastScale 0) [] () := by
  induction left with
  | zero => exact Parses.pure ()
  | succ left ih =>
    rw [skipScalingListFrom]
    refine Parses.check ?_
    rw [if_neg (by decide),if_pos rfl]
    exact ih

theorem deltaScale_read {last next : Nat} (positive : 0 < last) (small : next < 256) :
    ((last : Int) + deltaScale last next + 256).tmod 256 = next := by
  have wrapped : deltaScale last next = if ((next : Int) - last) % 256 < 128 then ((next : Int) - last) % 256 else
      ((next : Int) - last) % 256 - 256 := Int.bmod_def ..
  rw [wrapped,Int.tmod_eq_emod_of_nonneg (by split <;> omega)]
  split <;> omega

theorem deltaScale_parses (last next : Nat) :
    Parses brSe (expGolomb (signedCode (deltaScale last next))) (deltaScale last next) := by
  have low : -128 ≤ deltaScale last next := Int.le_bmod (by decide)
  have high : deltaScale last next < 128 := Int.bmod_lt (by decide)
  exact brSe_parses (by omega) (by omega)

theorem skipScalingListFrom_parses {left last : Nat} {next : Int} {scales : List Nat} (lastPositive : 0 < last)
    (nonzero : next ≠ 0) (ranged : ∀ scale ∈ scales, 0 < scale ∧ scale < 256) :
    Parses (skipScalingListFrom left last next) (scaleBits left last scales) () := by
  induction left generalizing last next scales with
  | zero => exact Parses.pure ()
  | succ left ih =>
    rw [skipScalingListFrom]
    refine Parses.check ?_
    rw [if_neg (by decide),if_neg nonzero]
    cases scales with
    | nil =>
      rw [scaleBits,← List.append_nil (expGolomb _)]
      refine (deltaScale_parses last 0).bind ?_
      rw [deltaScale_read lastPositive (by decide)]
      exact skipScalingListFrom_zero left _
    | cons scale scales =>
      obtain ⟨positive,small⟩ := ranged scale (by simp)
      have some : (scale : Int) ≠ 0 := by omega
      refine (deltaScale_parses last scale).bind ?_
      rw [deltaScale_read lastPositive small]
      dsimp only
      rw [if_neg some]
      exact ih positive some fun scale' among => ranged scale' (by simp [among])

theorem skipScalingLists_parses (matrix : ScalingMatrix) (left i : Nat) :
    Parses (skipScalingLists left i) (matrixBits matrix i left) () := by
  induction left generalizing i with
  | zero => exact Parses.pure ()
  | succ left ih =>
    rw [skipScalingLists]
    refine Parses.check ?_
    rw [if_neg (by decide)]
    have listed : ∀ list : ScalingList (listSize i), Parses (skipScalingList (if i < 6 then 16 else 64)) list.bits () :=
      fun list => skipScalingListFrom_parses (by decide) (by decide) list.ranged
    exact (Parses.option listed (matrix i)).bind (ih (i + 1))

end Fields

section Parts

set_option synthInstance.maxSize 10000

theorem spsChroma_parses (sps : SeqParameterSet) :
    Parses (spsChroma sps.profileIdc) (if sps.hasChroma = true then sps.chroma.bits else []) () := by
  have profile : profileHasChromaExt sps.profileIdc = sps.hasChroma := by
    rw [SeqParameterSet.hasChroma,profileHasChromaExt,List.contains_eq_mem]
  have format := sps.chroma.chromaFormatIdc.isLt
  have colour : sps.chroma.chromaFormatIdc.val = 3 ↔ sps.chroma.chromaFormatIdc = 3 :=
    ⟨fun same => Fin.ext same,fun same => congrArg Fin.val same⟩
  have plane : Parses (skipIf (sps.chroma.chromaFormatIdc.val = 3) (brU 1))
      (if sps.chroma.chromaFormatIdc = 3 then [sps.chroma.separateColourPlane] else []) () := by
    refine Parses.skipIf (fun present => ?_) fun absent => if_neg fun same => absent (colour.mpr same)
    rw [if_pos (colour.mp present)]
    exact (Parses.flag _).skip
  have lists : (if sps.chroma.chromaFormatIdc.val = 3 then 12 else 8) = if sps.chroma.chromaFormatIdc ≠ 3 then 8 else 12 := by
    rw [ite_not]
    exact if_congr colour rfl rfl
  have matrix := Parses.option (fun matrix => skipScalingLists_parses matrix (if sps.chroma.chromaFormatIdc.val = 3 then 12 else 8) 0)
    sps.chroma.scalingMatrix
  unfold spsChroma
  rw [profile]
  by_cases present : sps.hasChroma = true
  · rw [if_pos present,if_pos present]
    refine (Parses.small (by omega)).next (plane.next ?_)
    refine (Parses.ue _).skip.next ((Parses.ue _).skip.next ((Parses.flag _).skip.next ?_))
    rw [← lists,List.flatten_cons,List.flatten_nil,List.append_nil]
    exact matrix
  · rw [if_neg present,if_neg present]
    exact Parses.pure ()

theorem spsPicOrderCnt_parses (log2MaxFrameNum : Ue) (picOrderCnt : PicOrderCnt) :
    Parses spsPicOrderCnt (ueBits log2MaxFrameNum ++ picOrderCnt.bits) true := by
  unfold spsPicOrderCnt
  refine (Parses.ue log2MaxFrameNum).skip.bind ?_
  cases picOrderCnt with
  | lsb log2MaxLsb =>
    refine (Parses.small (by decide)).next ?_
    rw [if_pos rfl]
    exact (Parses.ue log2MaxLsb).skip.next (Parses.pure true)
  | cycle deltaAlwaysZero nonRef topToBottom offsets few =>
    refine (Parses.small (by decide)).next ?_
    rw [if_neg (by decide),if_pos rfl]
    refine (Parses.flag deltaAlwaysZero).skip.next ((Parses.se nonRef).skip.next ((Parses.se topToBottom).skip.next ?_))
    refine (Parses.small (by omega)).next ?_
    rw [if_neg (by omega)]
    exact (Parses.times Parses.se offsets).next (Parses.pure true)
  | outputOrder =>
    rw [PicOrderCnt.bits,← List.append_nil (expGolomb 2)]
    refine (Parses.small (by decide)).bind ?_
    rw [if_neg (by decide),if_neg (by decide)]
    exact Parses.pure true

theorem spsFrame_parses (f : Frame) : Parses spsFrame f.bits () := by
  have cropping : Parses (skipFlagged (do skip brUe; skip brUe; skip brUe; skip brUe))
      (optionBits (fun (left,right,top,bottom) => [ueBits left,ueBits right,ueBits top,ueBits bottom].flatten) f.cropping) () :=
    Parses.optionSkip (fun (left,right,top,bottom) => (Parses.ue left).skip.next ((Parses.ue right).skip.next
      ((Parses.ue top).skip.last (Parses.ue bottom).skip))) f.cropping
  have field : Parses (skipIf (f.mbAdaptiveFrameField.isNone.toNat = 0) (brU 1)) f.mbAdaptiveFrameField.toList () := by
    cases f.mbAdaptiveFrameField with
    | none => exact Parses.skipIf (fun present => absurd present (by decide)) fun _ => rfl
    | some adaptive => exact Parses.skipIf (fun _ => (Parses.flag adaptive).skip) fun absent => absurd rfl absent
  unfold spsFrame
  refine (Parses.ue f.maxNumRefFrames).skip.next ((Parses.flag f.gapsAllowed).skip.next ?_)
  refine (Parses.ue f.picWidthInMbs).skip.next ((Parses.ue f.picHeightInMapUnits).skip.next ?_)
  exact (Parses.flag _).next (field.next ((Parses.flag f.direct8x8Inference).skip.last cropping))

theorem aspectRatio_parses (aspectRatio : AspectRatio) :
    Parses (do
      let aspectRatioIdc ← brU 8
      skipIf (aspectRatioIdc = 255) (do skip (brU 16); skip (brU 16))) aspectRatio.bits () := by
  cases aspectRatio with
  | idc aspectRatioIdc known =>
    rw [AspectRatio.bits,← List.append_nil (toBits 8 _)]
    refine (Parses.field aspectRatioIdc (by decide) (by decide)).bind (Parses.skipIf (fun extended => ?_) fun _ => rfl)
    exact absurd (Fin.ext extended) known
  | extendedSar width height =>
    refine (Parses.field (255 : Fin (2 ^ 8)) (by decide) (by decide)).next (Parses.skipIf (fun _ => ?_) fun other => ?_)
    · exact ((Parses.field width (by decide) (by decide)).skip.last (Parses.field height (by decide) (by decide)).skip).skip
    · exact absurd rfl other

theorem videoSignal_parses (v : VideoSignal) :
    Parses (do
      skip (brU 3)
      skip (brU 1)
      skipFlagged (do skip (brU 8); skip (brU 8); skip (brU 8))) v.bits () := by
  have colour : Parses (skipFlagged (do skip (brU 8); skip (brU 8); skip (brU 8)))
      (optionBits (fun (primaries,transfer,matrix) => [toBits 8 primaries,toBits 8 transfer,toBits 8 matrix].flatten)
        v.colour) () :=
    Parses.optionSkip (fun (primaries,transfer,matrix) => (Parses.field primaries (by decide) (by decide)).skip.next
      ((Parses.field transfer (by decide) (by decide)).skip.last (Parses.field matrix (by decide) (by decide)).skip)) v.colour
  exact (Parses.field v.videoFormat (by decide) (by decide)).skip.next ((Parses.flag v.fullRange).skip.last colour)

theorem timing_parses (t : Timing) : Parses (do skip (brU 32); skip (brU 32); skip (brU 1)) t.bits () :=
  (Parses.field t.numUnitsInTick (by decide) (by decide)).skip.next
    ((Parses.field t.timeScale (by decide) (by decide)).skip.last (Parses.flag t.fixedFrameRate).skip)

theorem vuiHead_parses (vui : Vui) : Parses vuiHead vui.head () := by
  have overscan := Parses.option Parses.flag vui.overscanAppropriate
  have chromaLoc : Parses (skipFlagged (do skip brUe; skip brUe))
      (optionBits (fun (top,bottom) => [ueBits top,ueBits bottom].flatten) vui.chromaLoc) () :=
    Parses.optionSkip (fun (top,bottom) => (Parses.ue top).skip.last (Parses.ue bottom).skip) vui.chromaLoc
  unfold vuiHead
  refine (Parses.option aspectRatio_parses vui.aspectRatio).next (overscan.next ?_)
  refine (Parses.option videoSignal_parses vui.videoSignal).next (chromaLoc.last ?_)
  exact Parses.option timing_parses vui.timing

theorem parseHrd_parses (before : HrdLengths) (hrd : Hrd) : Parses (parseHrd before) hrd.bits hrd.lengths := by
  have few := hrd.few
  have cpb : ∀ cpb : Cpb, Parses (do skip brUe; skip brUe; skip (brU 1)) cpb.bits () :=
    fun cpb => (Parses.ue cpb.bitRate).skip.next ((Parses.ue cpb.cpbSize).skip.last (Parses.flag cpb.cbr).skip)
  unfold parseHrd
  refine (Parses.small (by omega)).next ((Parses.field hrd.bitRateScale (by decide) (by decide)).skip.next ?_)
  refine (Parses.field hrd.cpbSizeScale (by decide) (by decide)).skip.next ?_
  rw [if_neg (by omega)]
  refine (Parses.times cpb (hrd.first::hrd.more)).next ?_
  refine (Parses.field hrd.initialCpbRemovalDelayLengthMinus1 (by decide) (by decide)).skip.next ?_
  refine (Parses.field hrd.cpbRemovalDelayLengthMinus1 (by decide) (by decide)).next ?_
  refine (Parses.field hrd.dpbOutputDelayLengthMinus1 (by decide) (by decide)).next ?_
  exact (Parses.field hrd.timeOffsetLength (by decide) (by decide)).next (Parses.pure _)

theorem announcedHrd_parses (before : HrdLengths) (hrd : Option Hrd) :
    Parses (if hrd.isSome.toNat = 0 then pure before else parseHrd before) ((hrd.map Hrd.bits).getD [])
      ((hrd.map Hrd.lengths).getD before) := by
  cases hrd with
  | none => exact Parses.pure before
  | some hrd => exact parseHrd_parses before hrd

theorem optionBits_eq {α : Type} (bits : α → List Bool) (o : Option α) : optionBits bits o = [o.isSome] ++ (o.map bits).getD [] := by
  cases o <;> rfl

theorem vuiHrd_parses (vui : Vui) : Parses vuiHrd vui.hrds vui.carried := by
  have shape : vui.hrds = [[vui.nalHrd.isSome],(vui.nalHrd.map Hrd.bits).getD [],[vui.vclHrd.isSome],(vui.vclHrd.map Hrd.bits).getD [],
      if vui.hrdPresent = true then [vui.lowDelayHrd] else [],[vui.picStructPresent]].flatten := by
    simp only [Vui.hrds,optionBits_eq,List.flatten_cons,List.flatten_nil,List.append_assoc]
  have lowDelay : Parses (skipIf (vui.nalHrd.isSome.toNat ≠ 0 ∨ vui.vclHrd.isSome.toNat ≠ 0) (brU 1))
      (if vui.hrdPresent = true then [vui.lowDelayHrd] else []) () := by
    have either : vui.nalHrd.isSome.toNat ≠ 0 ∨ vui.vclHrd.isSome.toNat ≠ 0 ↔ vui.hrdPresent = true := by
      rw [Vui.hrdPresent,Bool.or_eq_true]
      cases vui.nalHrd.isSome <;> cases vui.vclHrd.isSome <;> decide
    refine Parses.skipIf (fun present => ?_) fun absent => if_neg fun present => absent (either.mpr present)
    rw [if_pos (either.mp present)]
    exact (Parses.flag vui.lowDelayHrd).skip
  have lengths : ((vui.vclHrd.map Hrd.lengths).getD ((vui.nalHrd.map Hrd.lengths).getD ⟨0,0,24⟩)) =
      ((vui.vclHrd.or vui.nalHrd).map Hrd.lengths).getD ⟨0,0,24⟩ := by
    cases vui.vclHrd <;> rfl
  unfold vuiHrd
  rw [shape]
  refine (Parses.flag vui.nalHrd.isSome).next ((announcedHrd_parses _ vui.nalHrd).next ?_)
  refine (Parses.flag vui.vclHrd.isSome).next ((announcedHrd_parses _ vui.vclHrd).next (lowDelay.next ?_))
  refine (Parses.flag vui.picStructPresent).next ?_
  rw [toNat_flag,toNat_flag,toNat_flag,lengths]
  exact Parses.pure _

theorem parseSps_parses (sps : SeqParameterSet) : Parses parseSps sps.head (some sps.carried) := by
  unfold parseSps
  refine (Parses.field sps.profileIdc (by decide) (by decide)).next ?_
  refine (Parses.field sps.constraintFlags (by decide) (by decide)).skip.next ?_
  refine (Parses.field sps.levelIdc (by decide) (by decide)).skip.next ((Parses.ue sps.seqParameterSetId).skip.next ?_)
  refine (spsChroma_parses sps).next ((spsPicOrderCnt_parses sps.log2MaxFrameNum sps.picOrderCnt).next ?_)
  rw [if_neg (by decide)]
  refine (spsFrame_parses sps.frame).next ?_
  unfold SeqParameterSet.carried
  rw [List.flatten_cons,List.flatten_nil,List.append_nil]
  cases sps.vui with
  | none =>
    show Parses _ ([false] ++ []) _
    refine (Parses.flag false).bind (Parses.check ?_)
    rw [if_neg (by decide),if_pos (by decide)]
    exact Parses.pure _
  | some vui =>
    show Parses _ ([true] ++ (vui.head ++ vui.hrds)) _
    refine (Parses.flag true).bind (Parses.check ?_)
    rw [if_neg (by decide),if_neg (by decide)]
    refine (vuiHead_parses vui).bind ?_
    rw [← List.append_nil vui.hrds]
    refine (vuiHrd_parses vui).bind (Parses.check ?_)
    rw [if_neg (by decide)]
    exact Parses.pure _

end Parts

section Update

variable {α β : Type}

/-- From every state the program ends, and with nothing found if the reader has failed. -/
def Drops (program : Read (Option β)) : Prop :=
  ∀ r, Yields (program.run r) fun result => result.2.Failed → result.1 = none

theorem Drops.none : Drops (pure none : Read (Option β)) := fun r => ⟨(.none,r),rfl,fun _ => rfl⟩

theorem Drops.after {first : Read α} {next : α → Read (Option β)} [ends : Ends BitReader.Failed first]
    (nextDrops : ∀ a, Drops (next a)) : Drops (first >>= next) := by
  intro r
  obtain ⟨⟨a,r'⟩,ran,_⟩ := ends.ends r
  have whole : (first >>= next).run r = (next a).run r' := by
    rw [StateT.run_bind,ran]
    rfl
  rw [whole]
  exact nextDrops a r'

theorem Drops.ite {condition : Prop} [Decidable condition] {first second : Read (Option β)} (positive : Drops first)
    (negative : Drops second) : Drops (if condition then first else second) := by
  split
  · exact positive
  · exact negative

theorem Drops.check {condition : Prop} [Decidable condition] {b : β} {later : Read (Option β)} (laterDrops : Drops later) :
    Drops (do
      if (← failed) = true then pure Option.none
      else if condition then pure (some b)
      else later) := by
  intro r
  have whole : (do
      if (← failed) = true then pure Option.none
      else if condition then pure (some b)
      else later : Read (Option β)).run r = (if r.err = true then pure Option.none
      else if condition then pure (some b)
      else later : Read (Option β)).run r := rfl
  rw [whole]
  by_cases fails : r.err = true
  · rw [if_pos fails]
    exact Drops.none r
  · rw [if_neg fails]
    by_cases here : condition
    · rw [if_pos here]
      exact ⟨(some b,r),rfl,fun failed => absurd failed fails⟩
    · rw [if_neg here]
      exact laterDrops r

theorem Drops.found (a : α) : Drops (do pure (if (← failed) = true then Option.none else some a)) := by
  intro r
  refine ⟨(if r.err = true then Option.none else some a,r),rfl,fun fails => ?_⟩
  exact if_pos fails

theorem parseSps_drops : Drops parseSps := by
  unfold parseSps
  refine Drops.after fun profileIdc => Drops.after fun _ => Drops.after fun _ => Drops.after fun _ => ?_
  refine Drops.after fun _ => Drops.after fun kept => Drops.ite Drops.none ?_
  refine Drops.after fun _ => Drops.after fun vuiPresent => Drops.check ?_
  exact Drops.after fun _ => Drops.after fun sps => Drops.found sps

/-- A parameter set in the syntax of H.264 is taken over as it is; one that is cut off
before `pic_struct_present_flag`, or any bytes on which the reader fails, leave the state. -/
theorem parseSpsH264_takes_or_keeps (rbsp : Text) (st : State) :
    (∀ sps : SeqParameterSet, sps.IsRbsp rbsp → parseSpsH264 rbsp st = .ok {st with spsValid := true,sps := sps.carried}) ∧
      (∀ sps : SeqParameterSet, ofBytes rbsp <+: sps.head → ofBytes rbsp ≠ sps.head → parseSpsH264 rbsp st = .ok st) ∧
      ∃ found r, parseSps.run ⟨rbsp,0,false⟩ = .ok (found,r) ∧ (r.err = true → parseSpsH264 rbsp st = .ok st) := by
  obtain ⟨⟨found,r⟩,ran,drops⟩ := parseSps_drops ⟨rbsp,0,false⟩
  have kept : r.err = true → parseSpsH264 rbsp st = .ok st := by
    intro fails
    have none : found = none := drops fails
    rw [parseSpsH264,ran,none]
    rfl
  refine ⟨?_,?_,found,r,ran,kept⟩
  · intro sps ⟨zeros,encoded⟩
    rw [SeqParameterSet.bits,List.append_assoc] at encoded
    obtain ⟨r',ran'⟩ := (parseSps_parses sps).reads.payload encoded
    rw [parseSpsH264,ran']
    rfl
  · intro sps ⟨missing,cut⟩ short
    have some : missing ≠ [] := fun none => short (by rw [← cut,none,List.append_nil])
    obtain ⟨result,failing,fails⟩ := (parseSps_parses sps).starves ⟨rbsp,0,false⟩ missing rfl some cut
    have same : result = (found,r) := Except.ok.inj (failing.symm.trans ran)
    rw [same] at fails
    exact kept fails

/-- A parameter set with a NAL HRD and `pic_struct_present_flag`. -/
def sampleSps : SeqParameterSet where
  profileIdc := 66
  constraintFlags := 0xC0
  levelIdc := 30
  seqParameterSetId := 0
  chroma := ⟨1,false,0,0,false,none⟩
  log2MaxFrameNum := 0
  picOrderCnt := .outputOrder
  frame := ⟨1,false,0,0,none,true,none⟩
  vui := some ⟨none,none,none,none,none,some ⟨⟨0,0,false⟩,[],0,0,23,23,23,24,by decide⟩,none,false,true,none⟩

theorem parseSpsH264_takes_or_keeps_sample :
    parseSpsH264 [0x42,0xC0,0x1E,0xDA,0x7A,0x0C,0x03,0x5E,0xF7,0xC1,0x40] State.init = .ok {State.init with spsValid := true,sps := ⟨true,24,24,true,24⟩} ∧
      parseSpsH264 [0x42,0xC0,0x1E] State.init = .ok State.init :=
  ⟨(parseSpsH264_takes_or_keeps _ State.init).1 sampleSps ⟨6,by decide⟩,
    (parseSpsH264_takes_or_keeps _ State.init).2.1 sampleSps (by decide) (by decide)⟩

end Update

end SrtLiveServer.Timecode
