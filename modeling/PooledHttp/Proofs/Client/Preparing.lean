import PooledHttp.Client.Prepare
import PooledHttp.Proofs.Route.Destination

/-!
# Which accepted URLs can be sent

The target of a request is cut out of its URI and read once more, as a URI of its own. There a path
has to start with a slash, so path and query are read as they stand when there is a path
(`parse_written`), and a query without a path is refused (`parse_query`). Nothing else in the
preparation fails, since the authority of a route holds no character that a header value may not
hold.

Hence the URLs that are accepted and cannot be sent are those with a query directly behind the
authority.
-/

set_option autoImplicit false

namespace PooledHttp

variable {s : Scheme} {uri : Uri} {route : Route} {url path : Text} {query : Option Text} {c : Char}

/-! ## Reading a target -/

namespace Uri

/-- A text that begins with a slash and is not too long is parsed as a target. -/
theorem parse_slash {t : Text} (hlength : Text.octetLength ('/' :: t) ≤ maxLength) :
    parse ('/' :: t) = ofTarget ('/' :: t) := by
  unfold parse
  rw [if_neg (by omega)]
  rfl

/-- A written path that begins with a slash is parsed together with its query. -/
theorem parse_written (hslash : path.head? = some '/') (hpath : path.all isPathChar = true)
    (hquery : (query.getD []).all isQueryChar = true)
    (hlength : Text.octetLength (written path query none) ≤ maxLength) :
    parse (written path query none) = .ok ⟨none, none, path, query⟩ := by
  obtain ⟨rest, rfl⟩ := List.head?_eq_some_iff.1 hslash
  calc parse (written ('/' :: rest) query none)
      = ofTarget (written ('/' :: rest) query none) := parse_slash hlength
    _ = .ok ⟨none, none, '/' :: rest, query⟩ := by
      rw [ofTarget, cutTarget_written none hpath hquery]

/-- A URI without scheme and authority is displayed as its path and query. -/
theorem display_path (hne : path ≠ []) :
    display ⟨none, none, path, query⟩ = written path query none := by
  have hempty : path.isEmpty = false := by simpa using hne
  cases query <;> simp [display, shownPath, queryPart, written, Text.behind, hempty]

/-- A query alone is no URI: there is no authority where one has to be. -/
theorem parse_query {q : Text} (hlength : Text.octetLength ('?' :: q) ≤ maxLength) :
    parse ('?' :: q) = .error (if q = [] then .badCharacter else .badFormat) := by
  unfold parse
  rw [if_neg (by omega)]
  cases q with
  | nil => rfl
  | cons d q =>
    have hhttp : Text.sameLetters (('?' :: d :: q).take 7) "http://".toList = false := rfl
    have hhttps : Text.sameLetters (('?' :: d :: q).take 8) "https://".toList = false := rfl
    have hscheme : cutScheme ('?' :: d :: q) = .ok (none, '?' :: d :: q) := by
      simp only [cutScheme, hhttp, hhttps, Bool.false_eq_true, if_false]
      rfl
    have hauthority : ('?' :: d :: q).takeWhile (fun c => !Authority.isEnd c) = [] := rfl
    have hcheck : Authority.check [] = .ok () := rfl
    simp [ofAbsolute, hscheme, hauthority, hcheck, bind, Except.bind, throw, throwThe,
      MonadExceptOf.throw]

end Uri

/-! ## The `Host` line -/

/-- Letters and digits lie between the digit zero and the small letter z. -/
theorem bounds_of_isAlphanum (h : c.isAlphanum = true) : '0' ≤ c ∧ c ≤ 'z' := by
  simp only [Char.isAlphanum, Char.isAlpha, Char.isUpper, Char.isLower, Char.isDigit,
    Bool.or_eq_true, Bool.and_eq_true, decide_eq_true_eq, ge_iff_le] at h
  rw [Char.le_def, Char.le_def]
  grind

/-- The characters of an authority are among those of a header value. -/
theorem Header.isValue_of_isAllowed {t : Text} (h : ∀ c ∈ t, Authority.isAllowed c = true) :
    Header.isValue t = true := by
  rw [isValue, List.all_eq_true]
  intro c hc
  have hallowed := h c hc
  simp only [Authority.isAllowed, Bool.or_eq_true, decide_eq_true_eq] at hallowed
  rcases hallowed with halphanum | hmark
  · obtain ⟨hlow, hhigh⟩ := bounds_of_isAlphanum halphanum
    have hspace : ' ' ≤ c := le_trans (by decide) hlow
    have hdelete : c ≠ '\x7f' := by
      rintro rfl
      exact absurd hhigh (by decide)
    simp [hspace, hdelete]
  · have hall : "!$&'()*+,-.:;=@[]_~%".toList.all
        (fun c => (decide (' ' ≤ c) || c == '\t') && c != '\x7f') = true := by decide
    exact List.all_eq_true.1 hall c hmark

namespace Route

/-- The host of a valid authority holds allowed characters only. -/
theorem isAllowed_of_mem_host {a : Text} (hcheck : Authority.check a = .ok ())
    (hc : c ∈ Authority.host a) : Authority.isAllowed c = true := by
  obtain ⟨x, hhost, -, hx⟩ | ⟨-, hhost⟩ := Authority.host_cases a
  · rw [hhost] at hc
    rcases List.mem_append.1 hc with hc | hc
    · exact Authority.isAllowed_of_check hcheck (hx.subset hc)
    · rw [List.mem_singleton.1 hc]
      decide
  · exact Authority.isAllowed_of_check hcheck (hhost.subset hc)

/-- Stripping brackets brings in no character. -/
theorem mem_of_mem_stripBrackets {h : Text} (hc : c ∈ stripBrackets h) : c ∈ h := by
  obtain ⟨i, j, hsplit⟩ := exists_brackets h
  rw [hsplit]
  simp [hc]

/-- The authority of a route whose host is made of allowed characters is made of them too. -/
theorem isAllowed_of_mem_authority (hhost : ∀ c ∈ route.host, Authority.isAllowed c = true) :
    ∀ c ∈ route.authority, Authority.isAllowed c = true := by
  have hport : ∀ c ∈ Decimal.write route.port.toNat, Authority.isAllowed c = true := by
    intro c hc
    simp [Authority.isAllowed, Char.isAlphanum, Decimal.isDigit_of_mem_write hc]
  have hbracketed : ∀ c ∈ route.bracketedHost, Authority.isAllowed c = true := by
    unfold bracketedHost
    split
    · simp only [List.cons_append, List.forall_mem_cons, List.forall_mem_append]
      exact ⟨by decide, hhost, by decide, by simp⟩
    · exact hhost
  unfold authority
  split
  · exact hbracketed
  · simp only [List.forall_mem_cons, List.forall_mem_append]
    exact ⟨hbracketed, by decide, hport⟩

/-- The `Host` line of an accepted URL can be written. -/
theorem isValue_authority {a : Text} (hroute : ofUri uri = .ok route)
    (ha : uri.authority = some a) (hcheck : Authority.check a = .ok ()) :
    Header.isValue route.authority = true := by
  obtain ⟨-, a', ha', hnew⟩ := exists_of_ofUri hroute
  obtain rfl : a = a' := Option.some.inj (ha.symm.trans ha')
  apply Header.isValue_of_isAllowed
  apply isAllowed_of_mem_authority
  rw [hnew]
  apply Text.forall_mem_lower
  · intro c hc
    simp [Authority.isAllowed, hc]
  · intro c hc
    exact isAllowed_of_mem_host hcheck (mem_of_mem_stripBrackets hc)

end Route

/-! ## Preparing -/

/-- What goes out for a request, with a given target. -/
def Request.wire (r : Request) (expectContinue : Bool) (route : Route) (target : Text) :
    WireRequest where
  method := r.method
  target := target
  version := r.version
  header := (if r.header.has hostName then r.header
    else r.header.insert hostName route.authority).withExpect (expectContinue && !r.body.isEmpty)
  body := r.body

variable {request : Request} {expectContinue : Bool}

/-- A request whose target can be parsed is sent with the target as it is displayed. -/
theorem Request.prepare_of_parse {target : Uri} (hvalue : Header.isValue route.authority = true)
    (hparse : Uri.parse request.uri.target = .ok target) :
    request.prepare expectContinue route =
      .ok (request.wire expectContinue route target.display) := by
  simp only [prepare, hparse, Header.withHost, hvalue, if_true, wire]
  by_cases hhost : request.header.has hostName = true <;> simp [hhost]

/-- A request whose target cannot be parsed is invalid, for the reason that the parser gives. -/
theorem Request.prepare_of_parse_error {e : UriError}
    (hparse : Uri.parse request.uri.target = .error e) :
    request.prepare expectContinue route = .error (.invalidRequest e.message) := by
  simp only [prepare, hparse]

namespace Url

/-- The path as it goes out, with `/` for an empty one. -/
def sentPath (u : Url s) : Text := if u.path = [] then ['/'] else u.path

/-- Path and query as they go out. -/
def target (u : Url s) : Text := Uri.written u.sentPath u.query none

/-- The path that is sent begins with a slash. -/
theorem head?_sentPath (u : Url s) : u.sentPath.head? = some '/' := by
  unfold sentPath
  split
  · rfl
  · next hne =>
    obtain ⟨c, rest, hpath⟩ := List.exists_cons_of_ne_nil hne
    have hhead : u.path.head? = some c := by rw [hpath, List.head?_cons]
    rw [hhead, u.path_start c hhead]

/-- The path that is sent has allowed characters only. -/
theorem sentPath_ok (u : Url s) : u.sentPath.all Uri.isPathChar = true := by
  unfold sentPath
  split
  · decide
  · exact u.path_ok

/-- The target is no longer than the URL. -/
theorem octetLength_target_le (u : Url s) :
    Text.octetLength u.target ≤ Text.octetLength u.text := by
  have hslash : Text.octetLength u.sentPath ≤
      Text.octetLength "://".toList + Text.octetLength u.path := by
    have hone : Text.octetLength ['/'] ≤ Text.octetLength "://".toList := by decide
    unfold sentPath
    split <;> omega
  simp only [target, text, Uri.written, Text.octetLength_append] at hslash ⊢
  have hnone : Text.octetLength (Text.behind '#' none) = 0 := rfl
  omega

/-- The target of a URL that is not too long is parsed into its path and query. -/
theorem parse_target (u : Url s) (hlength : Text.octetLength u.text ≤ Uri.maxLength) :
    Uri.parse u.target = .ok ⟨none, none, u.sentPath, u.query⟩ :=
  Uri.parse_written u.head?_sentPath u.sentPath_ok u.query_ok
    (u.octetLength_target_le.trans hlength)

/-- Where there is a path or no query, the target of a URL is what is sent. -/
theorem target_uri {u : Url s} (h : u.path ≠ [] ∨ u.query = none) : u.uri.target = u.target := by
  by_cases hpath : u.path = []
  · have hquery : u.query = none := h.resolve_left (not_not.2 hpath)
    simp [Uri.target, uri, Uri.queryPart, target, sentPath, Uri.written, Text.behind, hpath, hquery]
  · obtain ⟨c, rest, hcons⟩ := List.exists_cons_of_ne_nil hpath
    cases hquery : u.query <;>
      simp [Uri.target, uri, Uri.queryPart, target, sentPath, Uri.written, Text.behind, hcons,
        hquery]

/-- With a query and no path, the target of a URL is the query alone. -/
theorem target_uri_of_query {u : Url s} {q : Text} (hpath : u.path = [])
    (hquery : u.query = some q) : u.uri.target = '?' :: q := by
  simp [Uri.target, uri, Uri.queryPart, hpath, hquery]

/-- The query with its mark is no longer than the URL. -/
theorem octetLength_query_le {u : Url s} {q : Text} (hquery : u.query = some q) :
    Text.octetLength ('?' :: q) ≤ Text.octetLength u.text := by
  have hbehind : Text.behind '?' u.query = '?' :: q := by rw [hquery]; rfl
  simp only [text, Uri.written, hbehind, Text.octetLength_append]
  omega

end Url

/-- A request for an accepted URL goes out with the URL's path and query as they are written, and
`/` for an empty path, unless the URL has a query and no path: then it is refused. -/
theorem Request.prepare_of_accepted (hparse : Uri.parse url = .ok request.uri)
    (hroute : Route.ofUri request.uri = .ok route) :
    ∃ u : Url route.scheme, u.text = url ∧ u.uri = request.uri ∧
      (u.path ≠ [] ∨ u.query = none → request.prepare expectContinue route =
        .ok (request.wire expectContinue route u.target)) ∧
      ∀ q, u.path = [] → u.query = some q → request.prepare expectContinue route =
        .error (.invalidRequest
          (if q = [] then UriError.badCharacter else UriError.badFormat).message) := by
  obtain ⟨hscheme, -⟩ := Route.exists_of_ofUri hroute
  obtain ⟨hlength, u, rfl, huri⟩ := Uri.parse_eq_ok_iff.1 ⟨hparse, hscheme⟩
  have hvalue : Header.isValue route.authority = true :=
    Route.isValue_authority hroute (congrArg Uri.authority huri).symm u.authority_ok
  refine ⟨u, rfl, huri, ?_, ?_⟩
  · intro hsent
    have htarget : Uri.parse request.uri.target = .ok ⟨none, none, u.sentPath, u.query⟩ := by
      rw [← huri, Url.target_uri hsent, u.parse_target hlength]
    have hne : u.sentPath ≠ [] := by
      intro hnil
      have hhead := u.head?_sentPath
      rw [hnil] at hhead
      cases hhead
    rw [prepare_of_parse hvalue htarget, Uri.display_path hne]
    rfl
  · intro q hpath hquery
    apply prepare_of_parse_error
    rw [← huri, Url.target_uri_of_query hpath hquery]
    exact Uri.parse_query ((Url.octetLength_query_le hquery).trans hlength)

/-- A query directly behind the authority is accepted in a URL, and there is a route for it; the
request is refused all the same, with any method, header and body. -/
theorem Request.bare_query_refused : ∃ uri route,
    Uri.parse "http://h?x=1".toList = .ok uri ∧ Route.ofUri uri = .ok route ∧
      ∀ method version header body expectContinue,
        prepare ⟨method, uri, version, header, body⟩ expectContinue route =
          .error (.invalidRequest UriError.badFormat.message) :=
  ⟨⟨some "http".toList, some ['h'], [], some "x=1".toList⟩, ⟨.http, ['h'], 80⟩, rfl, rfl,
    fun _ _ _ _ _ => rfl⟩

/-- A body is announced and sent to an address, whose brackets go into the `Host` line; user
information and fragment are dropped. -/
theorem Request.prepare_of_accepted_address : ∃ uri,
    Uri.parse "http://u:1@[FE80::1]:81/a/b?x?/y#z".toList = .ok uri ∧
      Route.ofUri uri = .ok ⟨.http, "fe80::1".toList, 81⟩ ∧
      prepare ⟨.put, uri, .http11, .empty, [1]⟩ true ⟨.http, "fe80::1".toList, 81⟩ =
        .ok ⟨.put, "/a/b?x?/y".toList, .http11,
          ⟨[("host".toList, "[fe80::1]:81".toList), ("expect".toList, "100-continue".toList)]⟩,
          [1]⟩ := by
  let request : Request := ⟨.put, ⟨some "http".toList, some "u:1@[FE80::1]:81".toList,
    "/a/b".toList, some "x?/y".toList⟩, .http11, .empty, [1]⟩
  have hparse : Uri.parse "http://u:1@[FE80::1]:81/a/b?x?/y#z".toList = .ok request.uri := rfl
  have hroute : Route.ofUri request.uri = .ok ⟨.http, "fe80::1".toList, 81⟩ := rfl
  obtain ⟨u, -, huri, hsent, -⟩ := @prepare_of_accepted _ _ request true hparse hroute
  have hpath : u.path = "/a/b".toList := congrArg Uri.path huri
  have hquery : u.query = some "x?/y".toList := congrArg Uri.query huri
  have htarget : u.target = "/a/b?x?/y".toList := by
    rw [Url.target, Url.sentPath, hpath, hquery]
    decide
  refine ⟨request.uri, hparse, hroute, ?_⟩
  have hwire := hsent (.inl (by rw [hpath]; decide))
  rw [htarget] at hwire
  exact hwire

end PooledHttp
