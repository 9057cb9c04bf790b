import Mathlib.Data.List.Basic
import Mathlib.Tactic.Ring

/-! Bit sequences, most significant bit first: fixed-width fields and the bits of a
byte string. -/
namespace Bits

def ofBits (bits : List Bool) : Nat := bits.foldl (fun value bit => value * 2 + bit.toNat) 0

/-- The low `n` bits of `value`. -/
def toBits : Nat → Nat → List Bool
  | 0,_ => []
  | n + 1,value => decide (value / 2 ^ n % 2 = 1)::toBits n value

/-- Bit `pos` of a byte string. -/
def bitAt (bytes : List UInt8) (pos : Nat) : Option Bool :=
  bytes[pos / 8]?.map fun b => decide (b.toNat / 2 ^ (7 - pos % 8) % 2 = 1)

def ofBytes (bytes : List UInt8) : List Bool := bytes.flatMap fun b => toBits 8 b.toNat

/-- Exp-Golomb code of order zero: `k + 1` in binary, behind as many zeros as it has further bits. -/
def expGolomb (k : Nat) : List Bool := List.replicate (k + 1).log2 false ++ true::toBits (k + 1).log2 (k + 1)

def signedCode (v : Int) : Nat := if 0 < v then 2 * v.toNat - 1 else 2 * (-v).toNat

theorem foldl_bits (bits : List Bool) (value : Nat) :
    bits.foldl (fun value bit => value * 2 + bit.toNat) value = value * 2 ^ bits.length + ofBits bits := by
  induction bits generalizing value with
  | nil => simp [ofBits]
  | cons bit rest ih =>
    unfold ofBits
    rw [List.foldl_cons,List.foldl_cons,ih,ih,List.length_cons]
    ring

theorem ofBits_cons (bit : Bool) (rest : List Bool) : ofBits (bit::rest) = bit.toNat * 2 ^ rest.length + ofBits rest := by
  show List.foldl _ (0 * 2 + bit.toNat) rest = _
  rw [foldl_bits]
  simp

theorem ofBits_lt (bits : List Bool) : ofBits bits < 2 ^ bits.length := by
  induction bits with
  | nil => exact Nat.one_pos
  | cons bit rest ih =>
    rw [ofBits_cons,List.length_cons,Nat.pow_succ]
    cases bit <;> simp <;> omega

theorem toBits_length (n value : Nat) : (toBits n value).length = n := by
  induction n with
  | zero => rfl
  | succ n ih => rw [toBits,List.length_cons,ih]

theorem ofBits_toBits (n value : Nat) : ofBits (toBits n value) = value % 2 ^ n := by
  induction n with
  | zero => simp [toBits,ofBits,Nat.mod_one]
  | succ n ih =>
    have bit : (decide (value / 2 ^ n % 2 = 1)).toNat = value / 2 ^ n % 2 := by
      rcases Nat.mod_two_eq_zero_or_one (value / 2 ^ n) with zero | one
      · simp [zero]
      · simp [one]
    rw [toBits,ofBits_cons,toBits_length,ih,bit,Nat.pow_succ,Nat.mod_mul]
    ring

theorem ofBits_toBits_of_lt {n value : Nat} (fits : value < 2 ^ n) : ofBits (toBits n value) = value := by
  rw [ofBits_toBits,Nat.mod_eq_of_lt fits]

theorem ofBits_injective {first second : List Bool} (lengths : first.length = second.length)
    (same : ofBits first = ofBits second) : first = second := by
  induction first generalizing second with
  | nil => exact (List.eq_nil_of_length_eq_zero lengths.symm).symm
  | cons bit rest ih =>
    cases second with
    | nil => cases lengths
    | cons other more =>
      have tails : rest.length = more.length := Nat.succ.inj lengths
      have below := ofBits_lt rest
      have below' := ofBits_lt more
      rw [ofBits_cons,ofBits_cons,tails] at same
      rw [tails] at below
      cases bit <;> cases other
      · rw [ih tails (by simpa using same)]
      · simp at same
        omega
      · simp at same
        omega
      · rw [ih tails (by simpa using same)]

theorem ofBytes_length (bytes : List UInt8) : (ofBytes bytes).length = bytes.length * 8 := by
  induction bytes with
  | nil => rfl
  | cons b rest ih =>
    rw [ofBytes,List.flatMap_cons,List.length_append,toBits_length,← ofBytes,ih,List.length_cons]
    omega

theorem toBits_getElem? {n value i : Nat} (inside : i < n) :
    (toBits n value)[i]? = some (decide (value / 2 ^ (n - 1 - i) % 2 = 1)) := by
  induction n generalizing i with
  | zero => omega
  | succ n ih =>
    cases i with
    | zero => rfl
    | succ i =>
      have exponent : n + 1 - 1 - (i + 1) = n - 1 - i := by omega
      rw [toBits,List.getElem?_cons_succ,ih (by omega),exponent]

theorem ofBytes_getElem? (bytes : List UInt8) (pos : Nat) : (ofBytes bytes)[pos]? = bitAt bytes pos := by
  induction bytes generalizing pos with
  | nil => rfl
  | cons b rest ih =>
    unfold ofBytes
    rw [List.flatMap_cons]
    by_cases here : pos < 8
    · rw [List.getElem?_append_left (by rw [toBits_length]; exact here),toBits_getElem? here]
      unfold bitAt
      rw [Nat.div_eq_of_lt here,Nat.mod_eq_of_lt here]
      rfl
    · rw [List.getElem?_append_right (by rw [toBits_length]; omega),toBits_length]
      have later := ih (pos - 8)
      unfold ofBytes at later
      rw [later]
      unfold bitAt
      have next : pos / 8 = (pos - 8) / 8 + 1 := by omega
      have same : pos % 8 = (pos - 8) % 8 := by omega
      rw [next,same,List.getElem?_cons_succ]

theorem expGolomb_value (k : Nat) : 2 ^ (k + 1).log2 - 1 + ofBits (toBits (k + 1).log2 (k + 1)) = k := by
  have low : 2 ^ (k + 1).log2 ≤ k + 1 := Nat.log2_self_le (Nat.succ_ne_zero k)
  have high : k + 1 < 2 ^ (k + 1).log2 * 2 := by
    rw [← Nat.pow_succ]
    exact Nat.lt_log2_self
  have rest : (k + 1) % 2 ^ (k + 1).log2 = k + 1 - 2 ^ (k + 1).log2 := by
    rw [Nat.mod_eq_sub_mod low,Nat.mod_eq_of_lt (by omega)]
  rw [ofBits_toBits,rest]
  omega

theorem expGolomb_spelled {width : Nat} {bits : List Bool} (lengths : bits.length = width) :
    expGolomb (2 ^ width - 1 + ofBits bits) = List.replicate width false ++ true::bits := by
  have positive : 0 < 2 ^ width := Nat.two_pow_pos width
  have below := ofBits_lt bits
  rw [lengths] at below
  have next : 2 ^ width - 1 + ofBits bits + 1 = 2 ^ width + ofBits bits := by omega
  have log : (2 ^ width + ofBits bits).log2 = width := by
    rw [Nat.log2_eq_iff (by omega),Nat.pow_succ]
    omega
  have spelled : toBits width (2 ^ width + ofBits bits) = bits := by
    apply ofBits_injective
    · rw [toBits_length,lengths]
    · rw [ofBits_toBits,Nat.add_mod_left,Nat.mod_eq_of_lt below]
  unfold expGolomb
  rw [next,log,spelled]

theorem signedCode_surjective (k : Nat) :
    signedCode (if k % 2 = 1 then (((k + 1) / 2 : Nat) : Int) else -((k / 2 : Nat) : Int)) = k := by
  unfold signedCode
  split <;> split <;> omega

theorem signedCode_value (v : Int) :
    (if signedCode v % 2 = 1 then (((signedCode v + 1) / 2 : Nat) : Int) else -((signedCode v / 2 : Nat) : Int)) = v := by
  unfold signedCode
  split <;> split <;> omega

end Bits
