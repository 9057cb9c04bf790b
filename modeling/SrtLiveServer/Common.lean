import Mathlib.Algebra.Group.Int.Defs
import SrtLiveServer.Bytes

/-! `common.hpp` and `util.cpp`: the codes, sizes and text functions that all parts of
the server share. -/
namespace SrtLiveServer
open Bytes

def slsOk : Int := 0

def slsError : Int := -2 ^ 24

def urlMaxLen : Nat := 2048

/-- What the configuration trims. -/
def isTabOrSpace (b : UInt8) : Bool := b == byte ' ' || b == byte '\t'

def isUnreserved (b : UInt8) : Bool :=
  (byte '0' ≤ b && b ≤ byte '9') || (byte 'A' ≤ b && b ≤ byte 'Z') || (byte 'a' ≤ b && b ≤ byte 'z') ||
    b == byte '-' || b == byte '_' || b == byte '.' || b == byte '~'

def hexDigit (n : Nat) : UInt8 := if n < 10 then byte '0' + UInt8.ofNat n else byte 'A' + UInt8.ofNat (n - 10)

def urlEncode (value : Text) : Text :=
  value.flatMap fun b =>
    if isUnreserved b then [b] else [byte '%',hexDigit (b.toNat / 16),hexDigit (b.toNat % 16)]

end SrtLiveServer
