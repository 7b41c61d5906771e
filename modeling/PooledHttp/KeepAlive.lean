import PooledHttp.Header
import PooledHttp.Text.Decimal

/-!
# How long an idle connection may be kept

A server announces the time in a `Keep-Alive` line, as an element `timeout=<seconds>`. The first
element whose time can be read, in seconds and in milliseconds, decides; without one the policy's
fallback holds.
-/

set_option autoImplicit false

namespace PooledHttp

/-- Decides how long an idle connection may be kept. -/
structure KeepAlive where
  /-- The time that holds when the server announces none. -/
  fallback : Millis
  deriving DecidableEq, Repr

namespace KeepAlive

/-- Half a minute. -/
def standardTime : Millis := 30000

/-- The policy that holds when nothing is said. -/
def standard : KeepAlive := ⟨standardTime⟩

/-- The name of the element that announces the time. -/
def elementName : Text := "timeout".toList

/-- The seconds that an element announces. Parameters after a semicolon are no part of the value,
blanks around name and value are dropped, and the value may be quoted. -/
def seconds? (element : Text) : Option Nat :=
  match Text.cutOnce? '=' (element.takeWhile (· != ';')) with
  | none => none
  | some (name, value) =>
    if Text.sameLetters (Text.trim name) elementName then
      Decimal.read? Decimal.maxWord (Text.unquote (Text.trim value))
    else none

/-- Seconds as milliseconds, when these fit a word. -/
def millis? (seconds : Nat) : Option Millis :=
  if seconds * 1000 ≤ Decimal.maxWord then some (seconds * 1000) else none

/-- The time that an element announces. -/
def time? (element : Text) : Option Millis := (seconds? element).bind millis?

/-- How long a connection may be kept after a response with this header. -/
def duration (policy : KeepAlive) (h : Header) : Millis :=
  ((h.elements "keep-alive".toList).findSome? time?).getD policy.fallback

end KeepAlive
end PooledHttp
