import PooledHttp.Text.Basic

/-!
# URIs

A URI reference in one of the forms a request can carry: absolute (`http://host/path?query`), an
authority alone, a path with an optional query, or a lone `*`. The fragment is not kept. This module
has the parts of a URI, the reasons why a text is not one, and the printed form.
-/

set_option autoImplicit false

namespace PooledHttp

/-- The reasons why a text is not a URI. -/
inductive UriError where
  | empty
  | tooLong
  | schemeTooLong
  | badCharacter
  | badAuthority
  | badFormat
  deriving DecidableEq, Repr

/-- The wording of each reason. -/
def UriError.message : UriError → String
  | .empty => "empty string"
  | .tooLong => "uri too long"
  | .schemeTooLong => "scheme too long"
  | .badCharacter => "invalid uri character"
  | .badAuthority => "invalid authority"
  | .badFormat => "invalid format"

/-- The parts of a URI. A query that is present and empty differs from an absent one. -/
structure Uri where
  scheme : Option Text
  authority : Option Text
  path : Text
  query : Option Text
  deriving DecidableEq, Repr

namespace Uri

/-- The query with its question mark, or nothing. -/
def queryPart (uri : Uri) : Text := match uri.query with
  | some q => '?' :: q
  | none => []

/-- Path and query as they were written, with `/` for nothing at all. When a query follows the
authority directly, this is the query part alone. -/
def target (uri : Uri) : Text :=
  match uri.path ++ uri.queryPart with
  | [] => ['/']
  | t => t

/-- The path as it is printed: an empty path shows as `/` next to a scheme or a query. -/
def shownPath (uri : Uri) : Text :=
  if uri.path.isEmpty && (uri.scheme.isSome || uri.query.isSome) then ['/'] else uri.path

/-- The printed form. -/
def display (uri : Uri) : Text :=
  (match uri.scheme with
    | some s => s ++ "://".toList
    | none => []) ++
  uri.authority.getD [] ++ uri.shownPath ++ uri.queryPart

end Uri
end PooledHttp
