import Mathlib.Data.List.Basic
import Mathlib.Tactic.Ring

/-! Byte-stream view of a fixed circular buffer over an arbitrary cell type.
A buffer of `n` cells holds the last `n` elements of an unbounded stream, the
element at stream offset `i` in cell `i % n`. Writing at the head extends the
stream; reading behind the head returns the stream's own elements. -/
namespace Circular

variable {α : Type}

/-- Overwrite the cells from `pos` on with `data`, as a memory copy does. -/
def splice (buffer : List α) (pos : Nat) (data : List α) : List α :=
  buffer.take pos ++ data ++ buffer.drop (pos + data.length)

def slice (buffer : List α) (pos len : Nat) : List α := (buffer.drop pos).take len

/-- Copy `data` in at `pos`, continuing from cell zero past the end. -/
def write (buffer : List α) (pos : Nat) (data : List α) : List α :=
  if data.length ≤ buffer.length - pos then splice buffer pos data
  else splice (splice buffer pos (data.take (buffer.length - pos))) 0 (data.drop (buffer.length - pos))

def read (buffer : List α) (pos len : Nat) : List α :=
  if len ≤ buffer.length - pos then slice buffer pos len
  else slice buffer pos (buffer.length - pos) ++ slice buffer 0 (len - (buffer.length - pos))

/-- The buffer holds the newest elements of the stream, each in its own cell. -/
def Holds (buffer stream : List α) : Prop :=
  ∀ i, i < stream.length → stream.length ≤ i + buffer.length →
    buffer[i % buffer.length]? = stream[i]?

@[simp] theorem slice_length (buffer : List α) (pos len : Nat) :
    (slice buffer pos len).length = min len (buffer.length - pos) := by
  simp [slice]

theorem slice_getElem? (buffer : List α) (pos len i : Nat) :
    (slice buffer pos len)[i]? = if i < len then buffer[pos + i]? else none := by
  simp only [slice,List.getElem?_take,List.getElem?_drop]

theorem slice_zero (buffer : List α) (pos : Nat) : slice buffer pos 0 = [] := by
  simp [slice]

theorem slice_append (buffer : List α) (pos first second : Nat) :
    slice buffer pos first ++ slice buffer (pos + first) second = slice buffer pos (first + second) := by
  rw [slice,slice,slice,← List.drop_drop,← List.take_add]

theorem slice_append_left (buffer rest : List α) (pos len : Nat) (inside : pos + len ≤ buffer.length) :
    slice (buffer ++ rest) pos len = slice buffer pos len := by
  apply List.ext_getElem?
  intro i
  simp only [slice_getElem?]
  split
  · rw [List.getElem?_append_left (by omega)]
  · rfl

theorem slice_slice (buffer : List α) (offset : Nat) {pos len whole : Nat} (inside : pos + len ≤ whole) :
    slice (slice buffer offset whole) pos len = slice buffer (offset + pos) len := by
  apply List.ext_getElem?
  intro i
  simp only [slice_getElem?]
  split
  · rw [if_pos (by omega),Nat.add_assoc]
  · rfl

theorem splice_length (buffer : List α) (pos : Nat) (data : List α)
    (fits : pos + data.length ≤ buffer.length) : (splice buffer pos data).length = buffer.length := by
  simp only [splice,List.length_append,List.length_take,List.length_drop]
  omega

theorem slice_splice (buffer : List α) (pos : Nat) (data : List α) (inside : pos ≤ buffer.length) :
    slice (splice buffer pos data) pos data.length = data := by
  have front : (buffer.take pos).length = pos := List.length_take_of_le inside
  unfold slice splice
  rw [List.append_assoc,List.drop_left' front,List.take_left]

theorem splice_getElem? (buffer : List α) (pos : Nat) (data : List α) (i : Nat)
    (fits : pos + data.length ≤ buffer.length) :
    (splice buffer pos data)[i]? =
      if pos ≤ i ∧ i < pos + data.length then data[i - pos]? else buffer[i]? := by
  have front : (buffer.take pos).length = pos := by simp; omega
  unfold splice
  by_cases before : i < pos
  · rw [List.append_assoc,List.getElem?_append_left (by omega),List.getElem?_take_of_lt before,
      if_neg (by omega)]
  · by_cases within : i < pos + data.length
    · rw [List.getElem?_append_left (by simp; omega),List.getElem?_append_right (by omega),front,
        if_pos (by omega)]
    · rw [List.getElem?_append_right (by simp; omega),List.getElem?_drop,List.length_append,front,
        if_neg (by omega)]
      congr 1
      omega

theorem write_length (buffer : List α) (pos : Nat) (data : List α)
    (inside : pos ≤ buffer.length) (fits : data.length ≤ buffer.length) :
    (write buffer pos data).length = buffer.length := by
  unfold write
  split
  · exact splice_length _ _ _ (by omega)
  · have first : (splice buffer pos (data.take (buffer.length - pos))).length = buffer.length :=
      splice_length _ _ _ (by simp; omega)
    rw [splice_length _ _ _ (by simp; omega),first]

theorem write_getElem?_inside (buffer : List α) (pos : Nat) (data : List α) (k : Nat)
    (inside : pos < buffer.length) (fits : data.length ≤ buffer.length) (bound : k < data.length) :
    (write buffer pos data)[(pos + k) % buffer.length]? = data[k]? := by
  unfold write
  split
  · rename_i direct
    rw [splice_getElem? _ _ _ _ (by omega)]
    have small : pos + k < buffer.length := by omega
    rw [Nat.mod_eq_of_lt small,if_pos (by omega)]
    congr 1
    omega
  · rename_i wrapped
    have first : (splice buffer pos (data.take (buffer.length - pos))).length = buffer.length :=
      splice_length _ _ _ (by simp; omega)
    rw [splice_getElem? _ _ _ _ (by simp; omega)]
    by_cases head : pos + k < buffer.length
    · rw [Nat.mod_eq_of_lt head,if_neg (by simp; omega),splice_getElem? _ _ _ _ (by simp; omega),
        if_pos (by simp; omega),List.getElem?_take_of_lt (by omega)]
      congr 1
      omega
    · have around : (pos + k) % buffer.length = pos + k - buffer.length := by
        rw [Nat.mod_eq_sub_mod (by omega),Nat.mod_eq_of_lt (by omega)]
      rw [around,if_pos (by simp; omega),List.getElem?_drop]
      congr 1
      omega

theorem write_getElem?_outside (buffer : List α) (pos : Nat) (data : List α) (k : Nat)
    (inside : pos < buffer.length) (fits : data.length ≤ buffer.length)
    (beyond : data.length ≤ k) (bound : k < buffer.length) :
    (write buffer pos data)[(pos + k) % buffer.length]? = buffer[(pos + k) % buffer.length]? := by
  unfold write
  split
  · rename_i direct
    rw [splice_getElem? _ _ _ _ (by omega)]
    by_cases head : pos + k < buffer.length
    · rw [Nat.mod_eq_of_lt head,if_neg (by omega)]
    · have around : (pos + k) % buffer.length = pos + k - buffer.length := by
        rw [Nat.mod_eq_sub_mod (by omega),Nat.mod_eq_of_lt (by omega)]
      rw [around,if_neg (by omega)]
  · rename_i wrapped
    have first : (splice buffer pos (data.take (buffer.length - pos))).length = buffer.length :=
      splice_length _ _ _ (by simp; omega)
    have around : (pos + k) % buffer.length = pos + k - buffer.length := by
      rw [Nat.mod_eq_sub_mod (by omega),Nat.mod_eq_of_lt (by omega)]
    rw [splice_getElem? _ _ _ _ (by simp; omega),around,if_neg (by simp; omega),
      splice_getElem? _ _ _ _ (by simp; omega),if_neg (by omega)]

private theorem offset_mod (total offset n : Nat) (behind : offset ≤ total) :
    total % n = (offset % n + (total - offset)) % n := by
  rw [Nat.mod_add_mod]
  congr 1
  omega

/-- Writing at the head keeps the newest elements of the extended stream. -/
theorem holds_write (buffer stream data : List α) (held : Holds buffer stream)
    (fits : data.length ≤ buffer.length) (positive : 0 < buffer.length) :
    Holds (write buffer (stream.length % buffer.length) data) (stream ++ data) := by
  have inside : stream.length % buffer.length < buffer.length := Nat.mod_lt _ positive
  have size := write_length buffer (stream.length % buffer.length) data (Nat.le_of_lt inside) fits
  intro i bound recent
  rw [size] at recent ⊢
  rw [List.length_append] at bound recent
  by_cases old : i < stream.length
  · -- an older element survives exactly when the write stops short of its cell
    have cell : i % buffer.length =
        (stream.length % buffer.length + (buffer.length - (stream.length - i))) % buffer.length := by
      rw [Nat.mod_add_mod,show stream.length + (buffer.length - (stream.length - i)) = i + buffer.length by omega,
        Nat.add_mod_right]
    rw [List.getElem?_append_left old,cell,
      write_getElem?_outside _ _ _ _ inside fits (by omega) (by omega),← cell]
    exact held i old (by omega)
  · have cell : i % buffer.length =
        (stream.length % buffer.length + (i - stream.length)) % buffer.length :=
      offset_mod i stream.length buffer.length (by omega)
    rw [List.getElem?_append_right (by omega),cell,
      write_getElem?_inside _ _ _ _ inside fits (by omega)]

theorem read_getElem? (buffer : List α) (pos len i : Nat) (inside : pos < buffer.length)
    (fits : len ≤ buffer.length) :
    (read buffer pos len)[i]? = if i < len then buffer[(pos + i) % buffer.length]? else none := by
  unfold read
  split
  · rw [slice_getElem?]
    split
    · rw [Nat.mod_eq_of_lt (by omega)]
    · rfl
  · have front : (slice buffer pos (buffer.length - pos)).length = buffer.length - pos := by simp
    by_cases first : i < buffer.length - pos
    · rw [List.getElem?_append_left (by omega),slice_getElem?,if_pos first,if_pos (by omega),
        Nat.mod_eq_of_lt (by omega)]
    · rw [List.getElem?_append_right (by omega),front,slice_getElem?]
      by_cases within : i < len
      · rw [if_pos (by omega),if_pos within,Nat.mod_eq_sub_mod (by omega),Nat.mod_eq_of_lt (by omega)]
        congr 1
        omega
      · rw [if_neg (by omega),if_neg within]

/-- Reading behind the head, by at most one buffer length, returns the stream. -/
theorem read_holds (buffer stream : List α) (held : Holds buffer stream) (offset len : Nat)
    (positive : 0 < buffer.length) (available : offset + len ≤ stream.length)
    (recent : stream.length ≤ offset + buffer.length) :
    read buffer (offset % buffer.length) len = slice stream offset len := by
  apply List.ext_getElem?
  intro i
  rw [read_getElem? _ _ _ _ (Nat.mod_lt _ positive) (by omega),slice_getElem?]
  split
  · rw [Nat.mod_add_mod]
    exact held (offset + i) (by omega) (by omega)
  · rfl

section Queue

/-- The cells from `pos` on, continued at cell zero, hold the elements of the queue. -/
def Carries (buffer : List α) (pos : Nat) (queue : List α) : Prop :=
  queue.length ≤ buffer.length ∧ ∀ i, i < queue.length → buffer[(pos + i) % buffer.length]? = queue[i]?

variable {buffer queue data : List α} {pos : Nat}

theorem Carries.nil (buffer : List α) (pos : Nat) : Carries buffer pos [] := ⟨Nat.zero_le _,fun _ few => nomatch few⟩

theorem Carries.front (front rest : List α) : Carries (front ++ rest) 0 front := by
  constructor
  · rw [List.length_append]
    exact Nat.le_add_right _ _
  · intro i few
    have inside : i < (front ++ rest).length := by rw [List.length_append]; omega
    rw [Nat.zero_add,Nat.mod_eq_of_lt inside,List.getElem?_append_left few]

theorem Carries.read (carries : Carries buffer pos queue) (inside : pos < buffer.length) {len : Nat}
    (available : len ≤ queue.length) : read buffer pos len = queue.take len := by
  apply List.ext_getElem?
  intro i
  rw [read_getElem? buffer pos len i inside (Nat.le_trans available carries.1),List.getElem?_take]
  split
  · exact carries.2 i (by omega)
  · rfl

theorem Carries.drop (carries : Carries buffer pos queue) {len : Nat} (available : len ≤ queue.length) :
    Carries buffer ((pos + len) % buffer.length) (queue.drop len) := by
  obtain ⟨fits,cells⟩ := carries
  constructor
  · rw [List.length_drop]
    omega
  · intro i few
    rw [List.length_drop] at few
    rw [Nat.mod_add_mod,List.getElem?_drop,Nat.add_assoc]
    exact cells (len + i) (by omega)

theorem Carries.write (carries : Carries buffer pos queue) (inside : pos < buffer.length)
    (fits : queue.length + data.length ≤ buffer.length) :
    Carries (write buffer ((pos + queue.length) % buffer.length) data) pos (queue ++ data) := by
  have positive : 0 < buffer.length := by omega
  have start : (pos + queue.length) % buffer.length < buffer.length := Nat.mod_lt _ positive
  have size := write_length buffer ((pos + queue.length) % buffer.length) data (Nat.le_of_lt start) (by omega)
  constructor
  · rw [size,List.length_append]
    exact fits
  · intro i few
    rw [List.length_append] at few
    rw [size]
    by_cases old : i < queue.length
    · have cell : (pos + i) % buffer.length =
          ((pos + queue.length) % buffer.length + (buffer.length - queue.length + i)) % buffer.length := by
        have around : pos + queue.length + (buffer.length - queue.length + i) = pos + i + buffer.length := by omega
        rw [Nat.mod_add_mod,around,Nat.add_mod_right]
      rw [List.getElem?_append_left old,cell,write_getElem?_outside _ _ _ _ start (by omega) (by omega) (by omega),← cell]
      exact carries.2 i old
    · have cell : (pos + i) % buffer.length =
          ((pos + queue.length) % buffer.length + (i - queue.length)) % buffer.length := by
        have around : pos + queue.length + (i - queue.length) = pos + i := by omega
        rw [Nat.mod_add_mod,around]
      rw [List.getElem?_append_right (by omega),cell,write_getElem?_inside _ _ _ _ start (by omega) (by omega)]

end Queue

end Circular
