import PooledHttp.Proofs.Uri.Grammar

/-!
# Host and port of a URL's route

The route of a URL keeps the host in lower case and without brackets. Brackets are taken off both
ends of the host as they are found there, and only the host as it is written has to be non-empty.
The host of a route is therefore a real one exactly when a real one is written, alone or in
brackets, or with a closing bracket whose other half is in the user information (`host_real_iff`):
empty brackets, and brackets in the middle of a host, are let through.

The port is what stands behind the host and a colon, when it is a number that fits. Without a port
the scheme's own is taken, and so it is when the port is no such number (`explicit_port_honoured`).
-/

set_option autoImplicit false

namespace PooledHttp.Route

variable {s : Scheme} {uri : Uri} {route : Route} {url a h x : Text}

/-! ## What a route is made of -/

/-- The port of an authority, or else the scheme's own. -/
def portOf (s : Scheme) (authority : Text) : UInt16 :=
  ((Authority.port? authority).map UInt16.ofNat).getD s.defaultPort

/-- A URI with a known scheme and a host has the route of the two and of its port. -/
theorem ofUri_of_host (hs : uri.scheme.bind Scheme.ofName? = some s)
    (ha : uri.authority = some a) (hne : Authority.host a ≠ []) :
    ofUri uri = .ok (new s (stripBrackets (Authority.host a)) (portOf s a)) := by
  obtain ⟨name, hname, hscheme⟩ := Option.bind_eq_some_iff.1 hs
  obtain ⟨c, host, hhost⟩ := List.exists_cons_of_ne_nil hne
  simp only [ofUri, hname, hscheme, ha, Option.map_some, hhost, Option.bind_some, portOf]
  cases Authority.port? a <;> rfl

/-- A URI with an empty host is refused with a message that shows it. -/
theorem ofUri_of_no_host (hs : uri.scheme.bind Scheme.ofName? = some s)
    (ha : uri.authority = some a) (hnone : Authority.host a = []) :
    ofUri uri = .error (.invalidRequest s!"No host in URL: {String.ofList uri.display}") := by
  obtain ⟨name, hname, hscheme⟩ := Option.bind_eq_some_iff.1 hs
  simp only [ofUri, hname, hscheme, ha, Option.map_some, hnone]

/-- The route of a URI comes from its scheme and its authority. -/
theorem exists_of_ofUri (hroute : ofUri uri = .ok route) :
    uri.scheme.bind Scheme.ofName? = some route.scheme ∧ ∃ a, uri.authority = some a ∧
      route = new route.scheme (stripBrackets (Authority.host a)) (portOf route.scheme a) := by
  cases hname : uri.scheme with
  | none => simp [ofUri, hname] at hroute
  | some name =>
    cases hscheme : Scheme.ofName? name with
    | none => simp [ofUri, hname, hscheme] at hroute
    | some s =>
      have hs : uri.scheme.bind Scheme.ofName? = some s := by simp [hname, hscheme]
      cases ha : uri.authority with
      | none => simp [ofUri, hname, hscheme, ha] at hroute
      | some a =>
        by_cases hhost : Authority.host a = []
        · rw [ofUri_of_no_host hs ha hhost] at hroute
          cases hroute
        · rw [ofUri_of_host hs ha hhost] at hroute
          cases hroute
          exact ⟨hscheme, a, rfl, rfl⟩

/-! ## The host -/

/-- A host that can name something. -/
def IsReal (host : Text) : Prop := host ≠ [] ∧ '[' ∉ host ∧ ']' ∉ host

/-- Letter case does not matter for whether a host is real. -/
theorem isReal_lower : IsReal (Text.lower h) ↔ IsReal h := by
  rw [IsReal, IsReal, Text.mem_lower_iff (by decide) (by decide),
    Text.mem_lower_iff (by decide) (by decide), Text.lower, ne_eq, List.map_eq_nil_iff]

/-- Brackets are taken off both ends, however many there are. -/
theorem exists_brackets (h : Text) : ∃ i j,
    h = List.replicate i '[' ++ (stripBrackets h ++ List.replicate j ']') := by
  obtain ⟨i, hopen⟩ := Text.exists_replicate '[' h
  obtain ⟨j, hclose⟩ := Text.exists_replicate ']' (h.dropWhile (· == '[')).reverse
  refine ⟨i, j, ?_⟩
  have hrest : h.dropWhile (· == '[') = stripBrackets h ++ List.replicate j ']' := by
    have hreverse := congrArg List.reverse hclose
    rwa [List.reverse_reverse, List.reverse_append, List.reverse_replicate] at hreverse
  rw [← hrest]
  exact hopen

/-- Brackets around a real host are stripped, however many there are. -/
theorem stripBrackets_of_real (hx : IsReal x) (i j : Nat) :
    stripBrackets (List.replicate i '[' ++ (x ++ List.replicate j ']')) = x := by
  obtain ⟨hne, hopen, hclose⟩ := hx
  have hfront : ∀ c, (x ++ List.replicate j ']').head? = some c → c ≠ '[' := by
    rintro c hc rfl
    rw [List.head?_append_of_ne_nil _ hne] at hc
    exact hopen (List.mem_of_head? hc)
  have hback : ∀ c, x.reverse.head? = some c → c ≠ ']' := by
    rintro c hc rfl
    exact hclose (List.mem_reverse.1 (List.mem_of_head? hc))
  rw [stripBrackets, Text.dropWhile_replicate_append i hfront, List.reverse_append,
    List.reverse_replicate, Text.dropWhile_replicate_append j hback, List.reverse_reverse]

/-- The ways to write a real host that are read as this host. -/
def Writes (written host : Text) : Prop :=
  written = host ∨ written = '[' :: host ++ [']'] ∨ written = host ++ [']']

/-- A real host is what its written form is stripped to. -/
theorem stripBrackets_of_writes (hx : IsReal x) (hw : Writes h x) : stripBrackets h = x := by
  rcases hw with rfl | rfl | rfl
  · simpa using stripBrackets_of_real hx 0 0
  · simpa using stripBrackets_of_real hx 1 1
  · simpa using stripBrackets_of_real hx 0 1

/-- There are no other ways, since an authority holds one bracket of each kind at most. -/
theorem writes_of_real (hcheck : Authority.check a = .ok ())
    (hx : IsReal (stripBrackets (Authority.host a))) :
    Writes (Authority.host a) (stripBrackets (Authority.host a)) := by
  obtain ⟨i, j, hhost⟩ := exists_brackets (Authority.host a)
  have hopen := Authority.count_open_host_le_one hcheck
  have hclose := Authority.count_close_host_le_one hcheck
  have hcases := Authority.host_cases a
  generalize stripBrackets (Authority.host a) = x at hx hhost ⊢
  obtain ⟨hne, hxopen, hxclose⟩ := hx
  have hi : i ≤ 1 := by
    have hcount : (Authority.host a).count '[' = i := by
      simp [hhost, List.count_eq_zero.2 hxopen, List.count_replicate]
    omega
  have hj : j ≤ 1 := by
    have hcount : (Authority.host a).count ']' = j := by
      simp [hhost, List.count_eq_zero.2 hxclose, List.count_replicate]
    omega
  obtain rfl | rfl : i = 0 ∨ i = 1 := by omega
  · obtain rfl | rfl : j = 0 ∨ j = 1 := by omega
    · exact .inl (by simpa using hhost)
    · exact .inr (.inr (by simpa using hhost))
  · obtain rfl | rfl : j = 0 ∨ j = 1 := by omega
    · -- a bracket is opened and not closed
      obtain ⟨y, hy, -⟩ | ⟨hhead, -⟩ := hcases
      · have hmem : ']' ∈ Authority.host a := by simp [hy]
        rw [hhost] at hmem
        simp [hxclose] at hmem
      · rw [hhost] at hhead
        exact absurd rfl hhead
    · exact .inr (.inl (by simpa using hhost))

/-- A valid authority is stripped to a real host exactly if it writes one. -/
theorem isReal_stripBrackets_iff (hcheck : Authority.check a = .ok ()) :
    IsReal (stripBrackets (Authority.host a)) ↔ ∃ h, IsReal h ∧ Writes (Authority.host a) h := by
  constructor
  · intro hx
    exact ⟨_, hx, writes_of_real hcheck hx⟩
  · rintro ⟨h, hreal, hwrites⟩
    rwa [stripBrackets_of_writes hreal hwrites]

/-- A URL without a host is refused. The route of any other has a real host exactly when one is
written, and then this is its host, in lower case. -/
theorem host_real_iff (hparse : Uri.parse url = .ok uri)
    (hscheme : uri.scheme.bind Scheme.ofName? = some s) :
    ∃ a, uri.authority = some a ∧
      (Authority.host a = [] → ofUri uri =
        .error (.invalidRequest s!"No host in URL: {String.ofList uri.display}")) ∧
      (Authority.host a ≠ [] → ∃ route, ofUri uri = .ok route ∧
        (IsReal route.host ↔ ∃ h, IsReal h ∧ Writes (Authority.host a) h) ∧
        ∀ h, IsReal h → Writes (Authority.host a) h → route.host = Text.lower h) := by
  obtain ⟨-, u, -, rfl⟩ := Uri.parse_eq_ok_iff.1 ⟨hparse, hscheme⟩
  refine ⟨u.authority, rfl, ofUri_of_no_host hscheme rfl, ?_⟩
  intro hne
  refine ⟨_, ofUri_of_host hscheme rfl hne, ?_, ?_⟩
  -- the route has its host in lower case
  · exact isReal_lower.trans (isReal_stripBrackets_iff u.authority_ok)
  · intro h hreal hwrites
    rw [new, stripBrackets_of_writes hreal hwrites]

/-- Empty brackets are a host as it is written, and so is a bracket behind other characters; the
hosts of these routes are nothing, and a text with a bracket. -/
theorem unreal_hosts_accepted :
    (∃ uri route, Uri.parse "http://[]/".toList = .ok uri ∧ ofUri uri = .ok route ∧
      ¬IsReal route.host) ∧
    ∃ uri route, Uri.parse "http://a[b]c/".toList = .ok uri ∧ ofUri uri = .ok route ∧
      ¬IsReal route.host := by
  refine ⟨⟨⟨some "http".toList, some "[]".toList, ['/'], none⟩, ⟨.http, [], 80⟩, rfl, rfl, ?_⟩,
    ⟨some "http".toList, some "a[b]c".toList, ['/'], none⟩, ⟨.http, "a[b]c".toList, 80⟩, rfl, rfl,
    ?_⟩
  · intro hreal
    exact hreal.1 rfl
  · intro hreal
    exact hreal.2.1 (by decide)

/-- The host of an address in brackets, behind user information that holds a colon. -/
theorem host_real_iff_address : ∃ uri route,
    Uri.parse "http://u:1@[FE80::1]:81/".toList = .ok uri ∧ ofUri uri = .ok route ∧
      IsReal route.host ∧ route.host = "fe80::1".toList := by
  have hparse : Uri.parse "http://u:1@[FE80::1]:81/".toList =
      .ok ⟨some "http".toList, some "u:1@[FE80::1]:81".toList, ['/'], none⟩ := rfl
  have hreal : IsReal "FE80::1".toList := ⟨by decide, by decide, by decide⟩
  have hwrites : Writes (Authority.host "u:1@[FE80::1]:81".toList) "FE80::1".toList :=
    .inr (.inl (by decide))
  obtain ⟨a, ha, -, haccepted⟩ := host_real_iff hparse (Scheme.ofName?_name .http)
  obtain rfl : "u:1@[FE80::1]:81".toList = a := Option.some.inj ha
  obtain ⟨route, hroute, hiff, hhost⟩ := haccepted (by decide)
  exact ⟨_, route, hparse, hroute, hiff.2 ⟨_, hreal, hwrites⟩, hhost _ hreal hwrites⟩

/-! ## The port -/

/-- Without a port that can be read, the scheme gives it. -/
theorem portOf_of_none (h : Authority.port? a = none) : portOf s a = s.defaultPort := by
  simp [portOf, h]

/-- A port that can be read is the one of the route. -/
theorem portOf_of_some {n : Nat} (h : Authority.port? a = some n) (hle : n ≤ Decimal.maxPort) :
    (portOf s a).toNat = n := by
  have hlt : n < UInt16.size := Nat.lt_of_le_of_lt hle (by decide)
  simp only [portOf, h, Option.map_some, Option.getD_some]
  exact UInt16.toNat_ofNat_of_lt' hlt

/-- The port that is written behind the host is the port of the route, when it is a number that
fits. The scheme's own port is taken when none is written, and also when the text behind the colon
is no number or too large a one. -/
theorem explicit_port_honoured {p : Authority.Parts} (hparse : Uri.parse url = .ok uri)
    (hscheme : uri.scheme.bind Scheme.ofName? = some s) (ha : uri.authority = some p.text)
    (hcut : p.WellCut) (hhost : p.host ≠ []) : ∃ route, ofUri uri = .ok route ∧
      (∀ t n, p.port = some t → Decimal.Denotes t n → n ≤ Decimal.maxPort →
        route.port.toNat = n) ∧
      (p.port = none ∨ p.port = some [] → route.port = s.defaultPort) ∧
      (∀ t, p.port = some t → ']' ∉ t → (∀ n, Decimal.Denotes t n → Decimal.maxPort < n) →
        route.port = s.defaultPort) := by
  obtain ⟨-, u, -, rfl⟩ := Uri.parse_eq_ok_iff.1 ⟨hparse, hscheme⟩
  have htext : u.authority = p.text := Option.some.inj ha
  have hcheck : Authority.check p.text = .ok () := htext ▸ u.authority_ok
  have hne : Authority.host p.text ≠ [] := by
    rwa [Authority.Parts.host_text hcut]
  have hunread : ∀ t, p.port = some t → ']' ∉ t →
      (∀ n, Decimal.Denotes t n → Decimal.maxPort < n) → portOf s p.text = s.defaultPort := by
    intro t hport hclose hlarge
    apply portOf_of_none
    rw [Authority.Parts.port?_text_of_check hcut hport hcheck hclose]
    by_contra hread
    obtain ⟨n, hn⟩ := Option.ne_none_iff_exists'.1 hread
    obtain ⟨hdenotes, hle⟩ := Decimal.read?_eq_some_iff.1 hn
    exact absurd (hlarge n hdenotes) (by omega)
  refine ⟨_, ofUri_of_host hscheme ha hne, ?_, ?_, hunread⟩
  · intro t n hport hdenotes hle
    exact portOf_of_some (Authority.Parts.port?_text_of_denotes hport hdenotes hle) hle
  · rintro (hnone | hempty)
    · exact portOf_of_none (Authority.Parts.port?_text_of_none hcut hnone)
    · exact hunread [] hempty (by simp) fun n hdenotes => absurd rfl hdenotes.ne_nil

/-- A port that is too large is taken for none, and the route leads to the port of the scheme. -/
theorem large_port_ignored : ∃ uri route, Uri.parse "http://h:65536/".toList = .ok uri ∧
    uri.authority = some (Authority.Parts.text ⟨none, ['h'], some "65536".toList⟩) ∧
    (∀ n, Decimal.Denotes "65536".toList n → Decimal.maxPort < n) ∧
    ofUri uri = .ok route ∧ route.port = Scheme.http.defaultPort := by
  refine ⟨⟨some "http".toList, some "h:65536".toList, ['/'], none⟩, ⟨.http, ['h'], 80⟩, rfl, rfl,
    ?_, rfl, rfl⟩
  intro n hdenotes
  by_contra hle
  have hread := Decimal.read?_eq_some_iff.2 ⟨hdenotes, Nat.not_lt.1 hle⟩
  revert hread
  rw [(by decide : Decimal.read? Decimal.maxPort "65536".toList = none)]
  exact nofun

/-- The port of an address in brackets; its own colons and one in the user information come first. -/
theorem explicit_port_honoured_address : ∃ uri route,
    Uri.parse "https://u:9@[::1]:+8080?q".toList = .ok uri ∧ ofUri uri = .ok route ∧
      route.port.toNat = 8080 := by
  have hparse : Uri.parse "https://u:9@[::1]:+8080?q".toList =
      .ok ⟨some "https".toList, some "u:9@[::1]:+8080".toList, [], some ['q']⟩ := rfl
  have hcut : Authority.Parts.WellCut ⟨some "u:9".toList, "[::1]".toList, some "+8080".toList⟩ := by
    refine ⟨.inl ⟨"::1".toList, by decide, by decide⟩, by decide, ?_⟩
    intro t ht
    cases ht
    decide
  have hdenotes : Decimal.Denotes "+8080".toList 8080 :=
    ⟨"8080".toList, .inr (by decide), by decide, by decide⟩
  obtain ⟨route, hroute, hport, -⟩ := explicit_port_honoured hparse (Scheme.ofName?_name .https)
    (by decide) hcut (by decide)
  exact ⟨_, route, hparse, hroute, hport _ 8080 rfl hdenotes (by decide)⟩

end PooledHttp.Route
