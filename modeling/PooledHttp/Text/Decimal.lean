import PooledHttp.Text.Basic

/-!
# Decimal numbers

How numbers are written in ports, timeouts and messages: base ten, without leading zeros. Reading
accepts one `+` in front and leading zeros, and refuses a number above the given limit.
-/

set_option autoImplicit false

namespace PooledHttp.Decimal

/-- The largest number that 64 bits hold. -/
def maxWord : Nat := UInt64.size - 1

/-- The largest port. -/
def maxPort : Nat := UInt16.size - 1

/-- The number that a list of digits denotes, most significant first. -/
def value (digits : Text) : Nat :=
  digits.foldl (fun n c => 10 * n + (c.toNat - '0'.toNat)) 0

/-- One or more decimal digits and nothing else. -/
def isNumeral (t : Text) : Bool := !t.isEmpty && t.all Char.isDigit

/-- Read a number of at most `limit`: an optional `+`, then one or more digits. -/
def read? (limit : Nat) (t : Text) : Option Nat :=
  let digits := match t with
    | '+' :: rest => rest
    | _ => t
  if isNumeral digits && decide (value digits ≤ limit) then some (value digits) else none

/-- Write a number. -/
def write (n : Nat) : Text := Nat.toDigits 10 n

end PooledHttp.Decimal
