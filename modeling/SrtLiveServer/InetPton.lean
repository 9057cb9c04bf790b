import SrtLiveServer.Bytes
import Mathlib.Data.BitVec

/-! `inet_pton`: the text of an IPv4 or IPv6 address, read one character at a
time as the C library reads it. The addresses are numbers in host byte order. -/
namespace InetPton
open Bytes

def hexDigitValue (c : UInt8) : Option Nat :=
  if isDigit c then some (c.toNat - 48)
  else if byte 'a' ≤ c && c ≤ byte 'f' then some (c.toNat - 87)
  else if byte 'A' ≤ c && c ≤ byte 'F' then some (c.toNat - 55)
  else none

def join (base : Nat) (parts : List Nat) : Nat := parts.foldl (fun total part => total * base + part) 0

/-- `octet` is the octet under way, `none` before its first digit. -/
def octets : Text → List Nat → Option Nat → Option (List Nat)
  | [],done,some octet => some (done ++ [octet])
  | [],_,none => none
  | c::rest,done,octet =>
    if isDigit c then
      let digit := c.toNat - 48
      match octet with
      | none => if done.length < 4 then octets rest done (some digit) else none
      | some old => if old = 0 ∨ 255 < old * 10 + digit then none else octets rest done (some (old * 10 + digit))
    else if c = byte '.' then
      match octet with
      | none => none
      | some old => if done.length = 3 then none else octets rest (done ++ [old]) none
    else none

def octets4 (text : Text) : Option (List Nat) := (octets text [] none).filter fun parts => parts.length = 4

def inetPton4 (text : Text) : Option (BitVec 32) := (octets4 text).map fun parts => BitVec.ofNat 32 (join 256 parts)

/-- `curtok` is the text from the last separator on and `colon` the number of groups
before the `::`; of the group under way, the digits seen and their value. -/
def groups : Text → Text → List Nat → Option Nat → Nat × Nat → Option (List Nat × Option Nat)
  | [],_,done,colon,(0,_) => some (done,colon)
  | [],_,done,colon,(_,value) => if done.length < 8 then some (done ++ [value],colon) else none
  | c::rest,curtok,done,colon,(seen,value) =>
    match hexDigitValue c with
    | some digit => if seen = 4 then none else groups rest curtok done colon (seen + 1,value * 16 + digit)
    | none =>
      if c = byte ':' then
        if seen = 0 then
          if colon.isSome then none else groups rest rest done (some done.length) (0,0)
        else if rest.isEmpty then none
        else if done.length < 8 then groups rest rest (done ++ [value]) colon (0,0)
        else none
      else if c = byte '.' ∧ done.length + 2 ≤ 8 then
        -- a dotted quad ends the text
        (octets4 curtok).bind fun
          | [a,b,c,d] => some (done ++ [a * 256 + b,c * 256 + d],colon)
          | _ => none
      else none

/-- The `::` stands for the groups missing of eight, at least one. -/
def expand : List Nat × Option Nat → Option (List Nat)
  | (done,none) => if done.length = 8 then some done else none
  | (done,some before) =>
    if done.length < 8 then some (done.take before ++ List.replicate (8 - done.length) 0 ++ done.drop before) else none

def inetPton6 (text : Text) : Option (BitVec 128) :=
  let body := match text with
    | [] => none
    | c::rest => if c = byte ':' then (if rest.head? = some (byte ':') then some rest else none) else some text
  (body.bind fun text => (groups text text [] none (0,0)).bind expand).map fun parts =>
    BitVec.ofNat 128 (join 65536 parts)

example : inetPton6 (ascii "2001:db8::1") = some 0x20010db8000000000000000000000001 := by decide

example : inetPton6 (ascii "::ffff:192.0.2.7") = some 0xffffc0000207 := by decide

end InetPton
