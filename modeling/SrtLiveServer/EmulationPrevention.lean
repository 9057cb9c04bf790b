import SrtLiveServer.TimecodeSei

/-! `rbsp_unescape` at any capacity, against the encoder of the tests. -/
namespace SrtLiveServer.EmulationPrevention
open AnnexB Bytes Checked Timecode

/-- `dstCap` is the size of `dst`. -/
def rbspUnescapeInto (src : Text) (dstCap : Nat) : Except Fault Text := rbspUnescapeFrom src dstCap src.length 0 [] 0

/-- What was put out, and the zeros at its end. -/
def escapeByte (state : Text × Nat) (c : UInt8) : Text × Nat :=
  let state := if 2 ≤ state.2 ∧ c ≤ 0x03 then (state.1 ++ [0x03],0) else state
  (state.1 ++ [c],if c = 0x00 then state.2 + 1 else 0)

def escapeRbsp (rbsp : Text) : Text := (rbsp.foldl escapeByte ([],0)).1

theorem escapeByte_foldl (rbsp out : Text) (zeros : Nat) :
    (rbsp.foldl escapeByte (out,zeros)).1 = out ++ escapeFrom zeros rbsp := by
  induction rbsp generalizing out zeros with
  | nil => exact (List.append_nil out).symm
  | cons c rest ih =>
    rw [List.foldl_cons,escapeFrom]
    by_cases inserted : 2 ≤ zeros ∧ c ≤ 3
    · have step : escapeByte (out,zeros) c = (out ++ [3] ++ [c],if c = 0 then 1 else 0) := by
        unfold escapeByte
        dsimp only
        rw [if_pos inserted]
      rw [step,ih,if_pos inserted,List.append_assoc,List.append_assoc]
      rfl
    · have step : escapeByte (out,zeros) c = (out ++ [c],if c = 0 then zeros + 1 else 0) := by
        unfold escapeByte
        dsimp only
        rw [if_neg inserted]
      rw [step,ih,if_neg inserted,List.append_assoc]
      rfl

theorem escapeRbsp_eq (rbsp : Text) : escapeRbsp rbsp = escape rbsp := escapeByte_foldl rbsp [] 0

theorem rbspUnescapeInto_take (src : Text) (dstCap : Nat) :
    rbspUnescapeInto src dstCap = .ok ((unescapeFrom 0 src).take dstCap) :=
  @rbspUnescapeFrom_take [] src dstCap [] 0 (Nat.zero_le _)

theorem unescape_escape (rbsp : Text) : unescapeFrom 0 (escape rbsp) = rbsp := by
  obtain ⟨after,same⟩ := unescapeFrom_escapeFrom rbsp 0 []
  rw [List.append_nil,unescapeFrom,List.append_nil] at same
  exact same

/-- Emulation prevention is undone where the destination has room for the payload, and
never puts out more than the destination or the source holds. -/
theorem rbsp_unescape_undoes (rbsp src : Text) (dstCap : Nat) :
    (rbsp.length ≤ dstCap → rbspUnescapeInto (escapeRbsp rbsp) dstCap = .ok rbsp) ∧
      ∃ dst, rbspUnescapeInto src dstCap = .ok dst ∧ dst.length ≤ dstCap ∧ dst.length ≤ src.length := by
  constructor
  · intro fits
    rw [rbspUnescapeInto_take,escapeRbsp_eq,unescape_escape,List.take_of_length_le fits]
  · refine ⟨_,rbspUnescapeInto_take src dstCap,List.length_take_le _ _,?_⟩
    exact Nat.le_trans (List.length_take_le' _ _) (unescapeFrom_length src 0)

example : escapeRbsp [0,0,0,0,3] = [0,0,3,0,0,3,3] := by decide

end SrtLiveServer.EmulationPrevention
