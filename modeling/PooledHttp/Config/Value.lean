/-!
# Structured values

What a configuration is read from and written to: the values of a document with objects, lists and
scalars. Numbers written with a fraction or an exponent are kept apart from integers, since a
setting is always an integer.
-/

set_option autoImplicit false

namespace PooledHttp

/-- A structured value. -/
inductive Value where
  | null
  | boolean (b : Bool)
  | integer (n : Int)
  /-- A number with a fraction or an exponent, as it was written. -/
  | decimal (written : String)
  | text (s : String)
  | list (items : List Value)
  | object (fields : List (String × Value))
  deriving Inhabited

namespace Value

/-- A natural number as a value. -/
def ofNat (n : Nat) : Value := .integer n

/-- The natural number that a value holds, when it is one of at most `limit`. -/
def natural? (limit : Nat) : Value → Option Nat
  | .integer (.ofNat n) => if n ≤ limit then some n else none
  | _ => none

end Value
end PooledHttp
