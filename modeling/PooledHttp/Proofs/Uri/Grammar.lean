import PooledHttp.Proofs.Uri.Authority
import PooledHttp.Route

/-!
# The URLs that can be routed

A URL of a scheme is written as name, `://`, authority, path, query and fragment, each with the
characters that are allowed there (`Url`). The parser accepts exactly the texts of this form that
are not too long, and its answer has the parts as they are written, except for the letter case of
the name and for the fragment, which is dropped (`parse_eq_ok_iff`). What holds of all accepted URLs
can thus be said in terms of their parts.
-/

set_option autoImplicit false

namespace PooledHttp

variable {s : Scheme} {t rest : Text}

/-- A name is that of a scheme exactly if it is so in lower case. -/
theorem Scheme.ofName?_eq_some_iff : Scheme.ofName? t = some s ↔ Text.lower t = s.name := by
  have hhttp : Text.lower Scheme.http.name = Scheme.http.name := by decide
  have hhttps : Text.lower Scheme.https.name = Scheme.https.name := by decide
  have hne : Scheme.http.name ≠ Scheme.https.name := by decide
  simp only [Scheme.ofName?, Text.sameLetters, hhttp, hhttps, beq_iff_eq]
  cases s with
  | http => split <;> simp_all
  | https =>
    split
    · simp_all
    · split <;> simp_all

/-- The name of a scheme is recognised as its name. -/
theorem Scheme.ofName?_name (s : Scheme) : Scheme.ofName? s.name = some s :=
  ofName?_eq_some_iff.2 (by cases s <;> decide)

namespace Uri

/-! ## Path, query and fragment -/

/-- Path, query and fragment as they are written. -/
def written (path : Text) (query fragment : Option Text) : Text :=
  path ++ (Text.behind '?' query ++ Text.behind '#' fragment)

/-- Path and query are cut out of their written form, and the fragment is dropped. -/
theorem cutTarget_written {path : Text} {query : Option Text} (fragment : Option Text)
    (hpath : path.all isPathChar = true) (hquery : (query.getD []).all isQueryChar = true) :
    cutTarget (written path query fragment) = .ok (path, query) := by
  have hhash : '#' ∉ path ++ Text.behind '?' query := by
    have hpath' : '#' ∉ path := Text.not_mem_of_forall (List.all_eq_true.1 hpath) (by decide)
    have hquery' : '#' ∉ query.getD [] :=
      Text.not_mem_of_forall (List.all_eq_true.1 hquery) (by decide)
    cases query <;> simp_all [Text.behind]
  have hkept : (written path query fragment).takeWhile (· != '#') =
      path ++ Text.behind '?' query := by
    rw [written, ← List.append_assoc]
    exact Text.takeWhile_ne_append hhash fun c hc => Text.eq_of_head?_behind hc
  have hcut : (path ++ Text.behind '?' query).takeWhile (· != '?') = path :=
    Text.takeWhile_ne_append (Text.not_mem_of_forall (List.all_eq_true.1 hpath) (by decide))
      fun c hc => Text.eq_of_head?_behind hc
  simp only [cutTarget, hkept, hcut, List.drop_left]
  cases query <;> simp_all [Text.behind]

/-- A target that can be cut has allowed characters only and is the written form of its parts. -/
theorem exists_of_cutTarget {path : Text} {query : Option Text}
    (h : cutTarget t = .ok (path, query)) : path.all isPathChar = true ∧
      (query.getD []).all isQueryChar = true ∧ ∃ fragment, t = written path query fragment := by
  obtain ⟨fragment, hfragment⟩ := Text.exists_behind '#' t
  obtain ⟨part, hpart⟩ := Text.exists_behind '?' (t.takeWhile (· != '#'))
  unfold cutTarget at h
  extract_lets kept path' query' at h
  have hquery : query' = part := by
    have hdrop : kept.drop path'.length = Text.behind '?' part := by
      calc kept.drop path'.length = (path' ++ Text.behind '?' part).drop path'.length := by
            rw [← hpart]
        _ = Text.behind '?' part := List.drop_left
    unfold query'
    rw [hdrop]
    cases part <;> rfl
  split at h
  case isTrue hchars =>
    obtain ⟨rfl, rfl⟩ : path' = path ∧ query' = query := by simpa using h
    rw [Bool.and_eq_true] at hchars
    refine ⟨hchars.1, hchars.2, fragment, ?_⟩
    rw [written, hquery, ← List.append_assoc, ← hpart]
    exact hfragment
  · cases h

/-! ## The scheme -/

/-- A name with the sign behind it is cut off by its length. -/
theorem take_name {name sign : Text} {n : Nat} (hn : (name ++ sign).length = n) :
    (name ++ (sign ++ rest)).take n = name ++ sign := by
  rw [← List.append_assoc]
  exact List.take_left' hn

/-- Behind a name and its sign stands the rest. -/
theorem drop_name {name sign : Text} {n : Nat} (hn : (name ++ sign).length = n) :
    (name ++ (sign ++ rest)).drop n = rest := by
  rw [← List.append_assoc]
  exact List.drop_left' hn

/-- The name of a scheme, in any letter case, is cut off with the sign behind it. -/
theorem cutScheme_written {name : Text} (hname : Text.lower name = s.name) :
    cutScheme (name ++ ("://".toList ++ rest)) = .ok (some s.name, rest) := by
  have hlength : name.length = s.name.length := by
    rw [← hname, Text.length_lower]
  have hsame : ∀ sign t : Text, Text.sameLetters (name ++ sign) t =
      (s.name ++ Text.lower sign == Text.lower t) := by
    intro sign t
    rw [Text.sameLetters, Text.lower_append, hname]
  cases s with
  | http =>
    have hlong : (name ++ "://".toList).length = 7 := by
      rw [List.length_append, hlength]
      rfl
    rw [cutScheme, take_name hlong, drop_name hlong, if_pos (by rw [hsame]; decide)]
    rfl
  | https =>
    have hlong : (name ++ "://".toList).length = 8 := by
      rw [List.length_append, hlength]
      rfl
    -- the first seven characters are not those of the shorter scheme
    have hshort : (name ++ ("://".toList ++ rest)).take 7 = name ++ ":/".toList :=
      @take_name ('/' :: rest) name ":/".toList 7 (by rw [List.length_append, hlength]; rfl)
    rw [cutScheme, hshort, take_name hlong, drop_name hlong, if_neg (by rw [hsame]; decide),
      if_pos (by rw [hsame]; decide)]
    rfl

/-- A text that begins with the name of a scheme in any letter case has that form. -/
theorem exists_of_sameLetters {n : Nat}
    (h : Text.sameLetters (t.take n) (s.name ++ "://".toList) = true) :
    ∃ written, Text.lower written = s.name ∧ t = written ++ ("://".toList ++ t.drop n) := by
  have hlower : Text.lower (t.take n) = s.name ++ "://".toList := by
    rw [Text.sameLetters, beq_iff_eq] at h
    rw [h, Text.lower_append]
    cases s <;> decide
  obtain ⟨name, sign, htake, hname, hsign⟩ := List.map_eq_append_iff.1 hlower
  have hmark : ∀ c ∈ "://".toList, c.isLower = false := by simp [Char.isLower]
  refine ⟨name, hname, ?_⟩
  rw [← List.append_assoc, ← Text.eq_of_lower_eq hsign hmark, ← htake, List.take_append_drop]

/-- A text from which a known scheme is cut is its name in some letter case, the sign and the rest.
-/
theorem exists_of_cutScheme {name : Text} (h : cutScheme t = .ok (some name, rest))
    (hs : Scheme.ofName? name = some s) :
    ∃ written, Text.lower written = s.name ∧ t = written ++ ("://".toList ++ rest) := by
  unfold cutScheme at h
  split at h
  case isTrue hsame =>
    cases h
    obtain rfl : Scheme.http = s := Option.some.inj ((Scheme.ofName?_name .http).symm.trans hs)
    exact exists_of_sameLetters hsame
  split at h
  case isTrue hsame =>
    cases h
    obtain rfl : Scheme.https = s := Option.some.inj ((Scheme.ofName?_name .https).symm.trans hs)
    exact exists_of_sameLetters hsame
  extract_lets found at h
  split at h
  case h_1 after hdrop =>
    split at h
    · cases h
    split at h
    · cases h
    · obtain ⟨rfl, rfl⟩ : found = name ∧ after = rest := by simpa using h
      refine ⟨found, Scheme.ofName?_eq_some_iff.1 hs, ?_⟩
      calc t = found ++ t.dropWhile isSchemeChar := List.takeWhile_append_dropWhile.symm
        _ = found ++ t.drop found.length := by rw [Text.drop_length_takeWhile]
        _ = found ++ ("://".toList ++ after) := by rw [hdrop]; rfl
  · cases h

/-! ## An absolute URI -/

/-- The scheme of a URL that is parsed is the one that is cut off in front. -/
theorem exists_cut_of_ofAbsolute {uri : Uri} (h : ofAbsolute t = .ok uri) :
    ∃ rest, cutScheme t = .ok (uri.scheme, rest) := by
  cases hcut : cutScheme t with
  | error e => simp [ofAbsolute, hcut, bind, Except.bind] at h
  | ok cut =>
    obtain ⟨scheme, rest⟩ := cut
    simp only [ofAbsolute, hcut, bind, Except.bind, throw, throwThe, MonadExceptOf.throw, pure,
      Except.pure] at h
    refine ⟨rest, ?_⟩
    generalize rest.takeWhile (fun c => !Authority.isEnd c) = authority at h
    split at h
    · cases h
    split at h
    · cases h
    split at h
    · split at h <;> cases h
      rfl
    · split at h
      · cases h
      split at h <;> cases h
      rfl

/-- Behind the scheme, a URL is parsed exactly if a valid authority comes next and a valid target
behind it. -/
theorem ofAbsolute_eq_ok_iff {name : Text} {uri : Uri}
    (hscheme : cutScheme t = .ok (some name, rest)) : ofAbsolute t = .ok uri ↔
      ∃ authority path query, authority = rest.takeWhile (fun c => !Authority.isEnd c) ∧
        authority ≠ [] ∧ Authority.check authority = .ok () ∧
        cutTarget (rest.drop authority.length) = .ok (path, query) ∧
        uri = ⟨some name, some authority, path, query⟩ := by
  have hempty : rest = [] → rest.takeWhile (fun c => !Authority.isEnd c) = [] := by
    rintro rfl
    rfl
  simp only [ofAbsolute, hscheme, bind, Except.bind, throw, throwThe, MonadExceptOf.throw, pure,
    Except.pure]
  generalize rest.takeWhile (fun c => !Authority.isEnd c) = authority at hempty ⊢
  by_cases hrest : rest = []
  · simp [hrest, hempty hrest]
  cases hcheck : Authority.check authority with
  | error e => simp [hrest, hcheck]
  | ok _ =>
    by_cases hne : authority = []
    · simp [hrest, hne]
    · cases htarget : cutTarget (rest.drop authority.length) with
      | error e => simp [hrest, hne, htarget]
      | ok target =>
        simp only [List.isEmpty_iff, hrest, hne, if_false]
        constructor
        · intro h
          cases h
          exact ⟨authority, target.1, target.2, rfl, hne, hcheck, htarget, rfl⟩
        · rintro ⟨_, path, query, rfl, -, -, hcut, rfl⟩
          cases htarget.symm.trans hcut
          rfl
end Uri

/-! ## Whole URLs -/

/-- A URL of a scheme by its parts, as they are written. -/
structure Url (s : Scheme) where
  name : Text
  authority : Text
  path : Text
  query : Option Text
  fragment : Option Text
  name_eq : Text.lower name = s.name
  authority_ne : authority ≠ []
  authority_ok : Authority.check authority = .ok ()
  path_start : ∀ c, path.head? = some c → c = '/'
  path_ok : path.all Uri.isPathChar = true
  query_ok : (query.getD []).all Uri.isQueryChar = true

namespace Url

variable {u : Url s}

/-- The whole text. -/
def text (u : Url s) : Text :=
  u.name ++ ("://".toList ++ (u.authority ++ Uri.written u.path u.query u.fragment))

/-- What is kept of it. -/
def uri (u : Url s) : Uri := ⟨some s.name, some u.authority, u.path, u.query⟩

/-- No character of a valid authority ends it. -/
theorem not_isEnd_of_check {a : Text} {c : Char} (h : Authority.check a = .ok ()) (hc : c ∈ a) :
    Authority.isEnd c = false :=
  Authority.not_isEnd_of_isAllowed (Authority.isAllowed_of_check h hc)

/-- Whatever follows the authority begins with a character that ends it. -/
theorem isEnd_of_head? {c : Char}
    (h : (Uri.written u.path u.query u.fragment).head? = some c) : Authority.isEnd c = true := by
  rw [Uri.written, List.head?_append, List.head?_append] at h
  cases hpath : u.path.head? with
  | some d =>
    obtain rfl : d = c := by simpa [hpath] using h
    rw [u.path_start d hpath]
    rfl
  | none =>
    cases hquery : (Text.behind '?' u.query).head? with
    | some d =>
      obtain rfl : d = c := by simpa [hpath, hquery] using h
      rw [Text.eq_of_head?_behind hquery]
      rfl
    | none =>
      rw [hpath, hquery] at h
      rw [Text.eq_of_head?_behind h]
      rfl

/-- The authority of a written URL reaches up to its path, query or fragment. -/
theorem takeWhile_authority (u : Url s) :
    (u.authority ++ Uri.written u.path u.query u.fragment).takeWhile
      (fun c => !Authority.isEnd c) = u.authority := by
  apply Text.takeWhile_append_of_stop
  · intro c hc
    rw [not_isEnd_of_check u.authority_ok hc]
    rfl
  · intro c hc
    rw [isEnd_of_head? hc]
    rfl

/-- A written URL is parsed into its parts. -/
theorem ofAbsolute_text (u : Url s) : Uri.ofAbsolute u.text = .ok u.uri := by
  rw [text, Uri.ofAbsolute_eq_ok_iff (Uri.cutScheme_written u.name_eq)]
  refine ⟨u.authority, u.path, u.query, u.takeWhile_authority.symm, u.authority_ne,
    u.authority_ok, ?_, rfl⟩
  rw [List.drop_left]
  exact Uri.cutTarget_written u.fragment u.path_ok u.query_ok

/-- A text that starts with the name of a scheme is read as an absolute URI. -/
theorem parse_eq_ofAbsolute {name : Text} (hname : Text.lower name = s.name)
    (hlength : Text.octetLength (name ++ t) ≤ Uri.maxLength) :
    Uri.parse (name ++ t) = Uri.ofAbsolute (name ++ t) := by
  obtain ⟨a, b, tail, htext, ha⟩ : ∃ a b tail, name ++ t = a :: b :: tail ∧ a ≠ '/' := by
    obtain ⟨tail, htail⟩ : ∃ tail, s.name = 'h' :: 't' :: tail := by cases s <;> exact ⟨_, rfl⟩
    obtain ⟨a, rest, hsplit, ha, hrest⟩ := List.map_eq_cons_iff.1 (hname.trans htail)
    obtain ⟨b, rest', rfl, -, -⟩ := List.map_eq_cons_iff.1 hrest
    refine ⟨a, b, _, congrArg (· ++ _) hsplit, ?_⟩
    rintro rfl
    revert ha
    decide
  rw [htext] at hlength ⊢
  unfold Uri.parse
  rw [if_neg (by omega)]
  split <;> simp_all

/-- A written URL that is not too long is parsed into its parts. -/
theorem parse_text (hlength : Text.octetLength u.text ≤ Uri.maxLength) :
    Uri.parse u.text = .ok u.uri := by
  rw [← ofAbsolute_text]
  exact parse_eq_ofAbsolute u.name_eq hlength

/-- A text that is parsed is not too long. -/
theorem octetLength_le_of_parse {uri : Uri} (h : Uri.parse t = .ok uri) :
    Text.octetLength t ≤ Uri.maxLength := by
  unfold Uri.parse at h
  split at h
  · cases h
  · omega

/-- The path of a URI with an authority is empty or starts with a slash. -/
theorem path_start_of_drop {path : Text} {query fragment : Option Text}
    (hpath : path.all Uri.isPathChar = true)
    (hdrop : rest.dropWhile (fun c => !Authority.isEnd c) = Uri.written path query fragment) :
    ∀ c, path.head? = some c → c = '/' := by
  intro c hc
  have hhead : (Uri.written path query fragment).head? = some c := by simp [Uri.written, hc]
  have hend : Authority.isEnd c = true := by
    have hstop := List.head?_dropWhile_not (fun c => !Authority.isEnd c) rest
    rw [hdrop, hhead] at hstop
    simpa using hstop
  have hpathChar : Uri.isPathChar c = true := List.all_eq_true.1 hpath c (List.mem_of_head? hc)
  simp only [Authority.isEnd, Bool.or_eq_true, beq_iff_eq] at hend
  obtain (rfl | rfl) | rfl := hend
  · rfl
  · revert hpathChar
    decide
  · revert hpathChar
    decide

/-- A text that is parsed with a known scheme is a written URL, parsed into its parts. -/
theorem exists_of_ofAbsolute {uri : Uri} (h : Uri.ofAbsolute t = .ok uri)
    (hs : uri.scheme.bind Scheme.ofName? = some s) : ∃ u : Url s, u.text = t ∧ u.uri = uri := by
  obtain ⟨rest, hcut⟩ := Uri.exists_cut_of_ofAbsolute h
  obtain ⟨name, hname, hscheme⟩ := Option.bind_eq_some_iff.1 hs
  rw [hname] at hcut
  obtain ⟨written, hlower, rfl⟩ := Uri.exists_of_cutScheme hcut hscheme
  obtain rfl : s.name = name := by
    rw [Uri.cutScheme_written hlower] at hcut
    simpa using hcut
  obtain ⟨authority, path, query, hauthority, hne, hcheck, htarget, rfl⟩ :=
    (Uri.ofAbsolute_eq_ok_iff hcut).1 h
  obtain ⟨hpath, hquery, fragment, hdrop⟩ := Uri.exists_of_cutTarget htarget
  rw [hauthority, Text.drop_length_takeWhile] at hdrop
  have hrest : authority ++ Uri.written path query fragment = rest := by
    rw [← hdrop, hauthority, List.takeWhile_append_dropWhile]
  exact ⟨⟨written, authority, path, query, fragment, hlower, hne, hcheck,
    path_start_of_drop hpath hdrop, hpath, hquery⟩, by rw [text, hrest], rfl⟩

/-- An accepted text with a known scheme is a written URL, and not too long. -/
theorem exists_of_parse {uri : Uri} (h : Uri.parse t = .ok uri)
    (hs : uri.scheme.bind Scheme.ofName? = some s) :
    Text.octetLength t ≤ Uri.maxLength ∧ ∃ u : Url s, u.text = t ∧ u.uri = uri := by
  refine ⟨octetLength_le_of_parse h, ?_⟩
  unfold Uri.parse at h
  split at h
  · cases h
  split at h
  · cases h
  · cases h
    cases hs
  · unfold Uri.ofTarget at h
    split at h <;> cases h
    cases hs
  · unfold Uri.ofSingle at h
    split at h
    · cases h
    · split at h <;> cases h
      cases hs
  · exact exists_of_ofAbsolute h hs

end Url

/-- The texts that are read as a URI with a scheme that can be routed. -/
theorem Uri.parse_eq_ok_iff {uri : Uri} :
    (Uri.parse t = .ok uri ∧ uri.scheme.bind Scheme.ofName? = some s) ↔
      Text.octetLength t ≤ Uri.maxLength ∧ ∃ u : Url s, u.text = t ∧ u.uri = uri := by
  constructor
  · rintro ⟨hparse, hs⟩
    exact Url.exists_of_parse hparse hs
  · rintro ⟨hlength, u, rfl, rfl⟩
    exact ⟨Url.parse_text hlength, Scheme.ofName?_name s⟩

end PooledHttp
