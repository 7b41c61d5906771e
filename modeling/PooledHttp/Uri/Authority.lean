import PooledHttp.Text.Decimal
import PooledHttp.Uri.Basic

/-!
# The authority of a URI

An authority is what stands between `//` and the path: user information up to the last `@`, a host,
and a port after a colon. `Authority.check` scans it once from left to right. It keeps the number of
colons that may belong to a port, whether a percent sign stands where a host may stand, and which
brackets have been met; `@` and `]` start the colons and percent signs afresh, since those before
them belong to the user information or to an IP literal.
-/

set_option autoImplicit false

namespace PooledHttp.Authority

/-- The characters that end an authority. -/
def isEnd (c : Char) : Bool := c == '/' || c == '?' || c == '#'

/-- The characters an authority may hold. -/
def isAllowed (c : Char) : Bool := c.isAlphanum || c ∈ "!$&'()*+,-.:;=@[]_~%".toList

/-- At most this many colons may stand in one stretch of an authority. -/
def maxColons : Nat := 8

/-- What the scan remembers of the characters it has passed. -/
structure Scan where
  colons : Nat
  percent : Bool
  opened : Bool
  closed : Bool
  deriving DecidableEq, Repr

/-- The scan before the first character. -/
def Scan.start : Scan := ⟨0, false, false, false⟩

/-- One more character. -/
def Scan.step (s : Scan) (c : Char) : Except UriError Scan :=
  if !isAllowed c then .error .badCharacter
  else if c = ':' then
    if s.colons ≥ maxColons then .error .badAuthority else .ok { s with colons := s.colons + 1 }
  else if c = '%' then .ok { s with percent := true }
  else if c = '[' then
    if s.percent || s.opened then .error .badAuthority else .ok { s with opened := true }
  else if c = ']' then
    if !s.opened || s.closed then .error .badAuthority
    else .ok { s with closed := true, colons := 0, percent := false }
  else if c = '@' then .ok { s with colons := 0, percent := false }
  else .ok s

/-- All characters in turn. -/
def Scan.run : Scan → Text → Except UriError Scan
  | s, [] => .ok s
  | s, c :: t => match s.step c with
    | .ok s' => s'.run t
    | .error e => .error e

/-- Accept an authority: every character passes, brackets are paired, at most one colon and no
percent sign is left over for the host and port, and something follows the last `@`. -/
def check (t : Text) : Except UriError Unit :=
  match Scan.start.run t with
  | .error e => .error e
  | .ok s =>
    if s.opened != s.closed || decide (s.colons > 1) || t.getLast? == some '@' || s.percent then
      .error .badAuthority
    else .ok ()

/-- What follows the user information: the text after the last `@`, or all of it. -/
def hostAndPort (t : Text) : Text := (Text.afterLast? '@' t).getD t

/-- The host, with the brackets of an IP literal. -/
def host (t : Text) : Text :=
  let rest := hostAndPort t
  if rest.head? = some '[' then rest.takeWhile (· != ']') ++ [']']
  else rest.takeWhile (· != ':')

/-- The port: what follows the last colon of the whole authority, if that is a port number. -/
def port? (t : Text) : Option Nat := (Text.afterLast? ':' t).bind (Decimal.read? Decimal.maxPort)

end PooledHttp.Authority
