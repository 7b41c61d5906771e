/-!
# Text

Hosts, header values and request targets are lists of characters: every rule this library has about
them speaks of one character after another. The letter case rules know ASCII letters only, and a
blank is a space or a tab, as in a header line.
-/

set_option autoImplicit false

namespace PooledHttp

/-- Text that is taken apart character by character. -/
abbrev Text := List Char

/-- The octets of a message body. -/
abbrev Bytes := List UInt8

/-- A point in time or a length of time, in whole milliseconds. -/
abbrev Millis := Nat

namespace Text

/-- ASCII letters in lower case; every other character stays as it is. -/
def lower (t : Text) : Text := t.map Char.toLower

/-- Equality up to the case of ASCII letters. -/
def sameLetters (a b : Text) : Bool := lower a == lower b

/-- A space or a tab. -/
def isBlank (c : Char) : Bool := c == ' ' || c == '\t'

/-- Drop the blanks at both ends. -/
def trim (t : Text) : Text := ((t.dropWhile isBlank).reverse.dropWhile isBlank).reverse

/-- Cut at every `sep`. There is always at least one piece, and joining the pieces with `sep` gives
the text back. -/
def cut (sep : Char) : Text → List Text
  | [] => [[]]
  | c :: t =>
    if c = sep then [] :: cut sep t
    else match cut sep t with
      | [] => [[c]]
      | piece :: rest => (c :: piece) :: rest

/-- The text before the first `sep` and the text after it; `none` when there is no `sep`. -/
def cutOnce? (sep : Char) : Text → Option (Text × Text)
  | [] => none
  | c :: t => if c = sep then some ([], t) else (cutOnce? sep t).map fun (a, b) => (c :: a, b)

/-- The text after the last `sep`; `none` when there is no `sep`. -/
def afterLast? (sep : Char) (t : Text) : Option Text :=
  if sep ∈ t then some (t.reverse.takeWhile (· != sep)).reverse else none

/-- The text with `mark` taken off its front, when it starts with it. -/
def dropFront? (mark : Char) : Text → Option Text
  | [] => none
  | c :: t => if c = mark then some t else none

/-- The text with `mark` taken off its end, when it ends with it. -/
def dropBack? (mark : Char) (t : Text) : Option Text :=
  (dropFront? mark t.reverse).map List.reverse

/-- A value inside one pair of double quotes stands for the text between them; any other value
stands for itself. -/
def unquote (t : Text) : Text := ((dropFront? '"' t).bind (dropBack? '"')).getD t

/-- The number of octets of the UTF-8 form. -/
def octetLength (t : Text) : Nat := t.foldr (fun c n => c.utf8Size + n) 0

/-- Visible ASCII, a space or a tab: the characters of a header value that can be read as text. -/
def isPlain (c : Char) : Bool := (' ' ≤ c && c ≤ '~') || c == '\t'

end Text
end PooledHttp
