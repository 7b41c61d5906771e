import PooledHttp.Uri.Authority

/-!
# Reading a URI

`Uri.parse` reads the whole text or says why it is not a URI. Scheme, authority, path and query are
looked at in this order, and the first fault decides. Characters outside ASCII may stand in a path or
a query and nowhere else. The fragment is dropped unread.
-/

set_option autoImplicit false

namespace PooledHttp.Uri

/-- A URI has at most this many octets. -/
def maxLength : Nat := 65534

/-- A scheme has at most this many characters. -/
def maxSchemeLength : Nat := 64

/-- The characters of a scheme. -/
def isSchemeChar (c : Char) : Bool := c.isAlphanum || c == '+' || c == '-' || c == '.' || c == '~'

/-- A character outside ASCII. -/
def isWide (c : Char) : Bool := decide (0x80 ≤ c.toNat)

/-- The characters from `lo` to `hi`. -/
def within (lo hi c : Char) : Bool := decide (lo ≤ c) && decide (c ≤ hi)

/-- The characters of a path. -/
def isPathChar (c : Char) : Bool :=
  isWide c || c == '!' || within '$' ';' c || c == '=' || within '@' '_' c || within 'a' 'z' c ||
    c ∈ "\"\x7b|\x7d~".toList

/-- The characters of a query. -/
def isQueryChar (c : Char) : Bool :=
  isWide c || c == '!' || within '$' ';' c || c == '=' || within '?' '~' c

/-- The scheme, when the text starts with one and `://`, and the text after it. `http` and `https`
are recognised in any letter case and come out in lower case; another scheme keeps its letters. -/
def cutScheme (t : Text) : Except UriError (Option Text × Text) :=
  if Text.sameLetters (t.take 7) "http://".toList then .ok (some "http".toList, t.drop 7)
  else if Text.sameLetters (t.take 8) "https://".toList then .ok (some "https".toList, t.drop 8)
  else
    let name := t.takeWhile isSchemeChar
    match t.drop name.length with
    | ':' :: '/' :: '/' :: rest =>
      if t.length ≤ 3 then .ok (none, t)
      else if name.length > maxSchemeLength then .error .schemeTooLong
      else .ok (some name, rest)
    | _ => .ok (none, t)

/-- Path and query from the text behind the authority. -/
def cutTarget (t : Text) : Except UriError (Text × Option Text) :=
  let kept := t.takeWhile (· != '#')
  let path := kept.takeWhile (· != '?')
  let query := match kept.drop path.length with
    | [] => none
    | _ :: q => some q
  if path.all isPathChar && (query.getD []).all isQueryChar then .ok (path, query)
  else .error .badCharacter

/-- A text without scheme and authority: a path with an optional query. -/
def ofTarget (t : Text) : Except UriError Uri :=
  match cutTarget t with
  | .ok (path, query) => .ok ⟨none, none, path, query⟩
  | .error e => .error e

/-- A single character that is neither `/` nor `*` has to be an authority. -/
def ofSingle (c : Char) : Except UriError Uri :=
  if Authority.isEnd c then .error .badCharacter
  else match Authority.check [c] with
    | .ok _ => .ok ⟨none, some [c], [], none⟩
    | .error e => .error e

/-- A text that starts with a scheme or an authority. Without a scheme the authority is the whole
text; with one, the authority is not empty and a path may follow. -/
def ofAbsolute (t : Text) : Except UriError Uri := do
  let (scheme, rest) ← cutScheme t
  if rest.isEmpty then throw .empty
  let authority := rest.takeWhile fun c => !Authority.isEnd c
  Authority.check authority
  match scheme with
  | none => if authority = rest then return ⟨none, some authority, [], none⟩ else throw .badFormat
  | some scheme =>
    if authority.isEmpty then throw .badFormat
    let (path, query) ← cutTarget (rest.drop authority.length)
    return ⟨some scheme, some authority, path, query⟩

/-- Read a URI. -/
def parse (t : Text) : Except UriError Uri :=
  if Text.octetLength t > maxLength then .error .tooLong
  else match t with
    | [] => .error .empty
    | ['*'] => .ok ⟨none, none, ['*'], none⟩
    | '/' :: _ => ofTarget t
    | [c] => ofSingle c
    | _ => ofAbsolute t

end PooledHttp.Uri
