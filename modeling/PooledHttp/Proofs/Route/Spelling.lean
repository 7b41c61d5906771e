import PooledHttp.Proofs.Route.Destination

/-!
# Spellings of one destination

A URL may write its scheme in any letter case, put user information in front of the host, write the
host in any letter case and in brackets, write the scheme's own port or leave it out, and go on with
any path, query and fragment. `Route.Spelling` has all of these parts as they are written, and the
route of a spelling is made of its scheme, its host in lower case, and the port that it means.

The authority of such a URL is cut where it was put together, whatever the user information holds:
neither this nor a bare host has a character that ends an authority, and if a host in brackets had
one, the authority would end with an open bracket and be refused. Host and port are then found where
they were put. So every spelling that is a URL at all leads to its route, and two spellings that
differ in nothing else lead to the same one (`same_destination_same_route`).
-/

set_option autoImplicit false

namespace PooledHttp.Route

/-- A URL by its parts: a name of the scheme, user information, a host with or without brackets, a
port that is empty or a number that fits, and what follows the authority. -/
structure Spelling where
  scheme : Scheme
  name : Text
  user : Option Text
  host : Text
  brackets : Bool
  port : Option Text
  tail : Text
  name_eq : Text.lower name = scheme.name
  user_ok : ∀ u, user = some u → ∀ c ∈ u, Authority.isAllowed c = true
  host_ne : host ≠ []
  host_at : '@' ∉ host
  host_open : '[' ∉ host
  host_close : ']' ∉ host
  host_bare : brackets = false → ':' ∉ host ∧ ∀ c ∈ host, Authority.isAllowed c = true
  port_ok : ∀ t, port = some t →
    t = [] ∨ Decimal.isNumeral t = true ∧ Decimal.value t ≤ Decimal.maxPort
  tail_start : ∀ c, tail.head? = some c → Authority.isEnd c = true

namespace Spelling

variable {d : Spelling} {c : Char} {uri : Uri}

/-- The host as it is written. -/
def writtenHost (d : Spelling) : Text := if d.brackets then '[' :: d.host ++ [']'] else d.host

/-- What is written between `://` and the tail. -/
def authority (d : Spelling) : Authority.Parts := ⟨d.user, d.writtenHost, d.port⟩

/-- The URL. -/
def text (d : Spelling) : Text := d.name ++ ("://".toList ++ (d.authority.text ++ d.tail))

/-- The port that is meant: the one that is written, or else the scheme's own. -/
def effectivePort (d : Spelling) : UInt16 :=
  match d.port with
  | none | some [] => d.scheme.defaultPort
  | some digits => UInt16.ofNat (Decimal.value digits)

/-- The destination that is meant. -/
def route (d : Spelling) : Route := ⟨d.scheme, Text.lower d.host, d.effectivePort⟩

/-! ## The authority -/

/-- A written port holds no character that ends an authority, a host or user information. -/
theorem not_isEnd_of_mem_port {t : Text} (hport : d.port = some t) (hc : c ∈ t) :
    Authority.isEnd c = false ∧ c ≠ '@' ∧ c ≠ ']' := by
  rcases d.port_ok t hport with rfl | ⟨hnumeral, -⟩
  · cases hc
  · have hdigit := (Decimal.isNumeral_iff.1 hnumeral).2 c hc
    have hallowed : Authority.isAllowed c = true := by
      simp [Authority.isAllowed, Char.isAlphanum, hdigit]
    refine ⟨Authority.not_isEnd_of_isAllowed hallowed, ?_, ?_⟩
    all_goals
      rintro rfl
      cases hdigit

/-- User information holds no character that ends an authority. -/
theorem not_isEnd_of_mem_front (hc : c ∈ d.authority.front) : Authority.isEnd c = false := by
  cases huser : d.user with
  | none => simp [authority, Authority.Parts.front, huser] at hc
  | some u =>
    obtain hc | rfl : c ∈ u ∨ c = '@' := by
      simpa [authority, Authority.Parts.front, huser] using hc
    · exact Authority.not_isEnd_of_isAllowed (d.user_ok u huser c hc)
    · decide

/-- What follows the host holds no character that ends an authority. -/
theorem not_isEnd_of_mem_back (hc : c ∈ d.authority.back) : Authority.isEnd c = false := by
  cases hport : d.port with
  | none => simp [authority, Authority.Parts.back, hport, Text.behind] at hc
  | some t =>
    obtain rfl | hc : c = ':' ∨ c ∈ t := by
      simpa [authority, Authority.Parts.back, hport, Text.behind] using hc
    · decide
    · exact (not_isEnd_of_mem_port hport hc).1

/-- The authority of a spelling is cut off as a whole, if the host has no character that ends it. -/
theorem takeWhile_authority (hhost : ∀ c ∈ d.host, Authority.isEnd c = false) :
    (d.authority.text ++ d.tail).takeWhile (fun c => !Authority.isEnd c) = d.authority.text := by
  apply Text.takeWhile_append_of_stop
  · intro c hc
    have hnot : Authority.isEnd c = false := by
      rw [Authority.Parts.text, List.mem_append, List.mem_append] at hc
      rcases hc with hc | hc | hc
      · exact not_isEnd_of_mem_front hc
      · simp only [authority, writtenHost] at hc
        split at hc
        · obtain rfl | hc | rfl : c = '[' ∨ c ∈ d.host ∨ c = ']' := by simpa using hc
          · decide
          · exact hhost c hc
          · decide
        · exact hhost c hc
      · exact not_isEnd_of_mem_back hc
    rw [hnot]
    rfl
  · intro c hc
    rw [d.tail_start c hc]
    rfl

/-- A text in brackets that holds such a character leaves an open bracket behind. -/
theorem takeWhile_open {x y : Text} (hbrackets : d.brackets = true) (hsplit : d.host = x ++ c :: y)
    (hx : ∀ e ∈ x, Authority.isEnd e = false) (hc : Authority.isEnd c = true) :
    (d.authority.text ++ d.tail).takeWhile (fun c => !Authority.isEnd c) =
      d.authority.front ++ '[' :: x := by
  have htext : d.authority.text ++ d.tail =
      (d.authority.front ++ '[' :: x) ++ (c :: (y ++ ']' :: (d.authority.back ++ d.tail))) := by
    have hwritten : d.authority.host = '[' :: (x ++ c :: y) ++ [']'] := by
      rw [← hsplit]
      exact if_pos hbrackets
    simp [Authority.Parts.text, hwritten]
  rw [htext]
  apply Text.takeWhile_append_of_stop
  · intro e he
    obtain he | rfl | he : e ∈ d.authority.front ∨ e = '[' ∨ e ∈ x := by simpa using he
    · simp [not_isEnd_of_mem_front he]
    · decide
    · simp [hx e he]
  · intro e he
    obtain rfl : c = e := by simpa using he
    simp [hc]

/-- What is read as the authority of a spelling is what was written. -/
theorem authority_of_parse (hparse : Uri.parse d.text = .ok uri) :
    uri.scheme.bind Scheme.ofName? = some d.scheme ∧ uri.authority = some d.authority.text ∧
      Authority.check d.authority.text = .ok () := by
  have hlength := Url.octetLength_le_of_parse hparse
  rw [text, Url.parse_eq_ofAbsolute d.name_eq hlength,
    Uri.ofAbsolute_eq_ok_iff (Uri.cutScheme_written d.name_eq)] at hparse
  obtain ⟨a, path, query, ha, -, hcheck, -, rfl⟩ := hparse
  have hwhole : ∀ c ∈ d.host, Authority.isEnd c = false := by
    cases hfind : d.host.find? Authority.isEnd with
    | none => simpa using hfind
    | some c =>
      obtain ⟨hc, x, y, hsplit, hx⟩ := List.find?_eq_some_iff_append.1 hfind
      cases hbrackets : d.brackets with
      | false =>
        have hallowed := (d.host_bare hbrackets).2 c (by simp [hsplit])
        rw [Authority.not_isEnd_of_isAllowed hallowed] at hc
        cases hc
      | true =>
        have hclose : ']' ∉ x := fun hmem => d.host_close (by simp [hsplit, hmem])
        rw [ha, takeWhile_open hbrackets hsplit (by simpa using hx) hc] at hcheck
        exact absurd hcheck (Authority.not_check_of_open hclose)
  rw [takeWhile_authority hwhole] at ha
  exact ⟨Scheme.ofName?_name d.scheme, congrArg some ha, ha ▸ hcheck⟩

/-! ## Host and port -/

/-- The authority of a spelling is cut where its host and its port meet. -/
theorem wellCut_authority (d : Spelling) : d.authority.WellCut := by
  refine ⟨?_, ?_, ?_⟩
  · cases hbrackets : d.brackets with
    | true => exact .inl ⟨d.host, if_pos hbrackets, d.host_close⟩
    | false =>
      have hwritten : d.authority.host = d.host := by simp [authority, writtenHost, hbrackets]
      rw [hwritten]
      exact .inr ⟨(d.host_bare hbrackets).1, fun hhead => d.host_open (List.mem_of_head? hhead)⟩
  · simp only [authority, writtenHost]
    split <;> simp [d.host_at]
  · intro t hport hat
    exact (not_isEnd_of_mem_port hport hat).2.1 rfl

/-- The host of a spelling is read back from its authority. -/
theorem host_authority (d : Spelling) :
    Authority.host d.authority.text ≠ [] ∧
      stripBrackets (Authority.host d.authority.text) = d.host := by
  have hreal : IsReal d.host := ⟨d.host_ne, d.host_open, d.host_close⟩
  rw [Authority.Parts.host_text d.wellCut_authority]
  cases hbrackets : d.brackets with
  | true =>
    have hwritten : d.authority.host = '[' :: d.host ++ [']'] := if_pos hbrackets
    rw [hwritten]
    exact ⟨by simp, stripBrackets_of_writes hreal (.inr (.inl rfl))⟩
  | false =>
    have hwritten : d.authority.host = d.host := by simp [authority, writtenHost, hbrackets]
    rw [hwritten]
    exact ⟨d.host_ne, stripBrackets_of_writes hreal (.inl rfl)⟩

/-- The port of a spelling is read back from its authority, or is the default if none is written. -/
theorem portOf_authority (hcheck : Authority.check d.authority.text = .ok ()) :
    portOf d.scheme d.authority.text = d.effectivePort := by
  cases hport : d.port with
  | none =>
    rw [portOf_of_none (Authority.Parts.port?_text_of_none d.wellCut_authority hport)]
    simp [effectivePort, hport]
  | some t =>
    have hclose : ']' ∉ t := fun hmem => (not_isEnd_of_mem_port hport hmem).2.2 rfl
    have hread := Authority.Parts.port?_text_of_check d.wellCut_authority hport hcheck hclose
    rcases d.port_ok t hport with rfl | ⟨hnumeral, hle⟩
    · have hnone : Authority.port? d.authority.text = none := hread.trans (by decide)
      simp [portOf_of_none hnone, effectivePort, hport]
    · obtain ⟨digit, digits, rfl⟩ := List.exists_cons_of_ne_nil (Decimal.isNumeral_iff.1 hnumeral).1
      rw [Decimal.read?_of_isNumeral hnumeral, if_pos hle] at hread
      simp [portOf, hread, effectivePort, hport]

end Spelling

/-- Every spelling that is a URL is routed to the destination it means. Two of them with the same
scheme, the same host up to the case of letters, and the same port lead to the same route, whatever
else they hold. -/
theorem same_destination_same_route {d : Spelling} {uri : Uri}
    (hparse : Uri.parse d.text = .ok uri) : ofUri uri = .ok d.route ∧
      ∀ (d' : Spelling) (uri' : Uri), Uri.parse d'.text = .ok uri' → d'.scheme = d.scheme →
        Text.lower d'.host = Text.lower d.host → d'.effectivePort = d.effectivePort →
        ofUri uri' = ofUri uri := by
  have hrouted (d : Spelling) (uri : Uri) (hparse : Uri.parse d.text = .ok uri) :
      ofUri uri = .ok d.route := by
    obtain ⟨hscheme, hauthority, hcheck⟩ := Spelling.authority_of_parse hparse
    obtain ⟨hne, hhost⟩ := d.host_authority
    rw [ofUri_of_host hscheme hauthority hne, hhost, Spelling.portOf_authority hcheck]
    rfl
  refine ⟨hrouted d uri hparse, ?_⟩
  intro d' uri' hparse' hscheme hhost hport
  have hroute : d'.route = d.route := by
    rw [Spelling.route, Spelling.route, hscheme, hhost, hport]
  rw [hrouted d' uri' hparse', hrouted d uri hparse, hroute]

/-- A host behind user information that looks like an address with a port, and the same host alone.
-/
theorem same_destination_same_route_user : ∃ uri uri',
    Uri.parse "hTTp://[::1]:9@u:1@Host:080?q".toList = .ok uri ∧
      Uri.parse "HTTP://hOST#f".toList = .ok uri' ∧
      ofUri uri = .ok ⟨.http, "host".toList, 80⟩ ∧ ofUri uri' = ofUri uri := by
  let d : Spelling :=
    { scheme := .http, name := "hTTp".toList, user := some "[::1]:9@u:1".toList
      host := "Host".toList, brackets := false, port := some "080".toList, tail := "?q".toList
      name_eq := by decide
      user_ok := by
        intro u hu
        cases hu
        exact List.all_eq_true.1 (by decide)
      host_ne := by decide
      host_at := by decide
      host_open := by decide
      host_close := by decide
      host_bare := fun _ => ⟨by decide, List.all_eq_true.1 (by decide)⟩
      port_ok := by
        intro t ht
        cases ht
        exact .inr (by decide)
      tail_start := by simp [Authority.isEnd] }
  let d' : Spelling :=
    { scheme := .http, name := "HTTP".toList, user := none, host := "hOST".toList
      brackets := false, port := none, tail := "#f".toList
      name_eq := by decide
      user_ok := by
        intro u hu
        cases hu
      host_ne := by decide
      host_at := by decide
      host_open := by decide
      host_close := by decide
      host_bare := fun _ => ⟨by decide, List.all_eq_true.1 (by decide)⟩
      port_ok := by
        intro t ht
        cases ht
      tail_start := by simp [Authority.isEnd] }
  have hparse : Uri.parse "hTTp://[::1]:9@u:1@Host:080?q".toList =
      .ok ⟨some "http".toList, some "[::1]:9@u:1@Host:080".toList, [], some ['q']⟩ := rfl
  have hparse' : Uri.parse "HTTP://hOST#f".toList =
      .ok ⟨some "http".toList, some "hOST".toList, [], none⟩ := rfl
  have htext : d.text = "hTTp://[::1]:9@u:1@Host:080?q".toList := by decide
  have htext' : d'.text = "HTTP://hOST#f".toList := by decide
  obtain ⟨hroute, hsame⟩ := same_destination_same_route (d := d) (htext ▸ hparse)
  exact ⟨_, _, hparse, hparse', hroute,
    hsame d' _ (htext' ▸ hparse') rfl (by decide) (by decide)⟩

end PooledHttp.Route
