import PooledHttp.Text.Basic

/-!
# Header lines

A header is a list of lines, each with a name in lower case and a value, in the order in which they
were added. A name may occur on several lines. `append` adds a line, `insert` replaces all lines of
its name by one, `getAll` gives the values of a name in order.
-/

set_option autoImplicit false

namespace PooledHttp

/-- The reasons why a line cannot be added to a header. -/
inductive HeaderError where
  | badName
  | badValue
  deriving DecidableEq, Repr

/-- The wording of each reason. -/
def HeaderError.message : HeaderError → String
  | .badName => "invalid HTTP header name"
  | .badValue => "failed to parse header value"

/-- The characters of a header name or a method. -/
def isTokenChar (c : Char) : Bool := c.isAlphanum || c ∈ "!#$%&'*+-.^_`|~".toList

/-- Header lines: names in lower case, with their values. -/
structure Header where
  lines : List (Text × Text)
  deriving DecidableEq, Repr

namespace Header

/-- A header name has at most this many characters. -/
def maxNameLength : Nat := 65535

/-- No lines. -/
def empty : Header := ⟨[]⟩

/-- A name in the form in which it is kept; `none` when it is not a name. -/
def name? (t : Text) : Option Text :=
  if !t.isEmpty && t.all isTokenChar && decide (t.length ≤ maxNameLength) then some (Text.lower t)
  else none

/-- A value holds no control character other than a tab. -/
def isValue (t : Text) : Bool :=
  t.all fun c => (decide (' ' ≤ c) || c == '\t') && c != '\x7f'

/-- The value as text: only values made of visible ASCII, spaces and tabs can be read as text. -/
def readable? (value : Text) : Option Text := if value.all Text.isPlain then some value else none

/-- Add a line at the end. -/
def append (h : Header) (name value : Text) : Header := ⟨h.lines ++ [(name, value)]⟩

/-- Put one line in place of all lines of its name. -/
def insert (h : Header) (name value : Text) : Header :=
  ⟨h.lines.filter (fun line => line.1 != name) ++ [(name, value)]⟩

/-- The values of a name, in order. -/
def getAll (h : Header) (name : Text) : List Text :=
  h.lines.filterMap fun line => if line.1 = name then some line.2 else none

/-- Whether a name has a line. -/
def has (h : Header) (name : Text) : Bool := h.lines.any fun line => line.1 == name

/-- The readable values of a name, each cut at its commas: the elements of a list header. -/
def elements (h : Header) (name : Text) : List Text :=
  ((h.getAll name).filterMap readable?).flatMap (Text.cut ',')

/-- Add a line as it is written. Its name is looked at first. -/
def appendLine (h : Header) (line : Text × Text) : Except HeaderError Header :=
  match name? line.1 with
  | none => .error .badName
  | some name => if isValue line.2 then .ok (h.append name line.2) else .error .badValue

/-- Build a header from lines as they are written. The first line at fault is reported. -/
def ofLines (lines : List (Text × Text)) : Except HeaderError Header := lines.foldlM appendLine empty

end Header
end PooledHttp
