import PooledHttp.Proofs.Route.Destination

/-!
# Printed routes are read back

A route is printed in full, for messages, and as the authority that the `Host` line carries. In
both forms the host is followed by the port or by nothing, so both are cases of one authority by its
parts (`printed`). The scan lets it pass: a bracket resets what the scan has counted in the host,
and behind the host there is one colon and digits. Host and port are found again where they were
put.

The hosts concerned (`IsPrintable`) are names without a colon, and texts with colons and percent
signs such as addresses, which are printed in brackets.
-/

set_option autoImplicit false

namespace PooledHttp.Route

variable {c : Char} {host : Text} {r : Route} {port : Option UInt16}

/-! ## Hosts that can be printed -/

/-- The characters of a host that stands without brackets. -/
def isNameChar (c : Char) : Bool := c.isAlphanum || c ∈ "!$&'()*+,-.;=_~".toList

/-- The characters of a host in brackets. -/
def isAddressChar (c : Char) : Bool := isNameChar c || c == '%' || c == ':'

/-- A name without colons and percent signs, or a text with up to eight colons. -/
def IsPrintable (host : Text) : Prop :=
  (host ≠ [] ∧ ∀ c ∈ host, isNameChar c = true) ∨
    ((∀ c ∈ host, isAddressChar c = true) ∧ 1 ≤ host.count ':' ∧ host.count ':' ≤ 8)

/-- Letters and digits may stand in a name. -/
theorem isNameChar_of_isAlphanum (c : Char) (h : c.isAlphanum = true) : isNameChar c = true := by
  simp [isNameChar, h]

/-- A host that can be printed can be printed in lower case. -/
theorem IsPrintable.lower (h : IsPrintable host) : IsPrintable (Text.lower host) := by
  rw [IsPrintable, Text.count_lower (by decide) (by decide)]
  rcases h with ⟨hne, hname⟩ | ⟨haddress, hcount⟩
  · refine .inl ⟨by simpa [Text.lower] using hne, ?_⟩
    exact Text.forall_mem_lower isNameChar_of_isAlphanum hname
  · refine .inr ⟨?_, hcount⟩
    apply Text.forall_mem_lower _ haddress
    intro c hc
    simp [isAddressChar, isNameChar_of_isAlphanum c hc]

/-- Letters and digits are inner characters of an authority. -/
theorem isInner_of_isAlphanum (h : c.isAlphanum = true) : Authority.isInner c = true := by
  have hne : ∀ d : Char, d.isAlphanum = false → c ≠ d := by
    rintro d hd rfl
    rw [h] at hd
    cases hd
  simp [Authority.isInner, Authority.isAllowed, h, hne '[' (by decide), hne ']' (by decide),
    hne '@' (by decide)]

/-- The characters of an address are inner characters of an authority. -/
theorem isInner_of_isAddressChar (h : isAddressChar c = true) : Authority.isInner c = true := by
  simp only [isAddressChar, isNameChar, Bool.or_eq_true, decide_eq_true_eq, beq_iff_eq] at h
  rcases h with ((halphanum | hmark) | rfl) | rfl
  · exact isInner_of_isAlphanum halphanum
  · have hall : "!$&'()*+,-.;=_~".toList.all Authority.isInner = true := by decide
    exact List.all_eq_true.1 hall c hmark
  · decide
  · decide

/-- A host that can be printed has inner characters only. -/
theorem IsPrintable.inner (h : IsPrintable host) : ∀ c ∈ host, Authority.isInner c = true := by
  intro c hc
  apply isInner_of_isAddressChar
  rcases h with ⟨-, hname⟩ | ⟨haddress, -⟩
  · simp [isAddressChar, hname c hc]
  · exact haddress c hc

/-- A host that can be printed is real. -/
theorem IsPrintable.isReal (h : IsPrintable host) : IsReal host := by
  refine ⟨?_, Text.not_mem_of_forall h.inner (by decide),
    Text.not_mem_of_forall h.inner (by decide)⟩
  rcases h with ⟨hne, -⟩ | ⟨-, hcount, -⟩
  · exact hne
  · rintro rfl
    simp at hcount

/-! ## The printed forms -/

/-- Bracketed host and port, if there is one, as parts of an authority. -/
def printed (r : Route) (port : Option UInt16) : Authority.Parts :=
  ⟨none, r.bracketedHost, port.map fun p => Decimal.write p.toNat⟩

/-- What stands behind a host is a colon and digits, or nothing. -/
theorem back_printed (r : Route) (port : Option UInt16) :
    (∀ c ∈ (r.printed port).back, Authority.isInner c = true) ∧
      (r.printed port).back.count ':' ≤ 1 ∧ '%' ∉ (r.printed port).back := by
  cases port with
  | none => simp [printed, Authority.Parts.back, Text.behind]
  | some p =>
    have hback : (r.printed (some p)).back = ':' :: Decimal.write p.toNat := rfl
    have hdigits : ∀ c ∈ Decimal.write p.toNat, c.isDigit = true := fun _ hc =>
      Decimal.isDigit_of_mem_write hc
    have hcolon : ':' ∉ Decimal.write p.toNat := Text.not_mem_of_forall hdigits (by decide)
    have hpercent : '%' ∉ Decimal.write p.toNat := Text.not_mem_of_forall hdigits (by decide)
    rw [hback]
    refine ⟨?_, ?_, ?_⟩
    · intro c hc
      rcases List.mem_cons.1 hc with rfl | hc
      · decide
      · exact isInner_of_isAlphanum (by simp [Char.isAlphanum, hdigits c hc])
    · simp [List.count_eq_zero.2 hcolon]
    · simp [hpercent]

/-- A host with a colon is printed in brackets. -/
theorem text_printed_of_colon (hcolon : ':' ∈ r.host) :
    (r.printed port).text = '[' :: (r.host ++ ']' :: (r.printed port).back) := by
  simp [printed, bracketedHost, hcolon, Authority.Parts.text, Authority.Parts.front,
    Authority.Parts.back]

/-- A host without a colon is printed as it is. -/
theorem text_printed_of_no_colon (hcolon : ':' ∉ r.host) :
    (r.printed port).text = r.host ++ (r.printed port).back := by
  simp [printed, bracketedHost, hcolon, Authority.Parts.text, Authority.Parts.front,
    Authority.Parts.back]

/-- The printed authority is valid. -/
theorem check_printed (h : IsPrintable r.host) :
    Authority.check (r.printed port).text = .ok () := by
  obtain ⟨hback, hcount, hpercent⟩ := back_printed r port
  have hinner := h.inner
  rcases h with ⟨-, hname⟩ | ⟨-, hone, height⟩
  · have hcolon : ':' ∉ r.host := Text.not_mem_of_forall hname (by decide)
    have hname' : '%' ∉ r.host := Text.not_mem_of_forall hname (by decide)
    rw [text_printed_of_no_colon hcolon]
    apply Authority.check_of_inner
    · intro c hc
      rcases List.mem_append.1 hc with hc | hc
      · exact hinner c hc
      · exact hback c hc
    · rwa [List.count_append, List.count_eq_zero.2 hcolon, Nat.zero_add]
    · simp [hname', hpercent]
  · rw [text_printed_of_colon (List.count_pos_iff.1 hone)]
    exact Authority.check_of_brackets hinner height hback hcount hpercent

/-- The printed authority is cut where host and port meet. -/
theorem wellCut_printed (h : IsPrintable r.host) : (r.printed port).WellCut := by
  have hat : '@' ∉ r.host := Text.not_mem_of_forall h.inner (by decide)
  obtain ⟨-, hopen, hclose⟩ := h.isReal
  refine ⟨?_, ?_, ?_⟩
  · by_cases hcolon : ':' ∈ r.host
    · exact .inl ⟨r.host, by simp [printed, bracketedHost, hcolon], hclose⟩
    · refine .inr ⟨by simp [printed, bracketedHost, hcolon], ?_⟩
      simp only [printed, bracketedHost, hcolon, if_false]
      exact fun hhead => hopen (List.mem_of_head? hhead)
  · simp only [printed, bracketedHost]
    split <;> simp [hat]
  · intro t ht
    obtain ⟨p, -, rfl⟩ := Option.map_eq_some_iff.1 ht
    exact (Decimal.denotes_write p.toNat).not_mem (by decide) (by decide)

/-- The host is read back from the printed authority. -/
theorem host_printed (h : IsPrintable r.host) :
    stripBrackets (Authority.host (r.printed port).text) = r.host := by
  rw [Authority.Parts.host_text (wellCut_printed h)]
  apply stripBrackets_of_writes h.isReal
  by_cases hcolon : ':' ∈ r.host
  · exact .inr (.inl (by simp [printed, bracketedHost, hcolon]))
  · exact .inl (by simp [printed, bracketedHost, hcolon])

/-- The printed authority has a host. -/
theorem host_printed_ne_nil (h : IsPrintable r.host) :
    Authority.host (r.printed port).text ≠ [] := by
  intro hnil
  apply h.isReal.1
  rw [← host_printed h, hnil]
  rfl

/-- The port is read back from the printed authority, also where it is left out as the default. -/
theorem port_printed (h : IsPrintable r.host) (hport : port.getD r.scheme.defaultPort = r.port) :
    portOf r.scheme (r.printed port).text = r.port := by
  cases port with
  | none =>
    rw [portOf_of_none (Authority.Parts.port?_text_of_none (wellCut_printed h) rfl)]
    exact hport
  | some p =>
    have hle : p.toNat ≤ Decimal.maxPort := Nat.le_pred_of_lt p.toNat_lt
    have hread := Authority.Parts.port?_text_of_denotes (p := r.printed (some p)) rfl
      (Decimal.denotes_write p.toNat) hle
    apply UInt16.toNat_inj.1
    rw [portOf_of_some hread hle, ← hport, Option.getD_some]

/-- The route of a printed authority, with the scheme of the route that was printed. -/
theorem new_printed (h : IsPrintable r.host) (hlower : Text.lower r.host = r.host)
    (hport : port.getD r.scheme.defaultPort = r.port) :
    new r.scheme (stripBrackets (Authority.host (r.printed port).text))
      (portOf r.scheme (r.printed port).text) = r := by
  rw [host_printed h, port_printed h hport, new, hlower]

/-! ## Reading them -/

/-- A text is read as the URL of a route. -/
def Reads (url : Text) (r : Route) : Prop := ∃ uri, Uri.parse url = .ok uri ∧ ofUri uri = .ok r

/-- A printed authority behind its scheme. -/
def printedUrl (h : IsPrintable r.host) (port : Option UInt16) : Url r.scheme where
  name := r.scheme.name
  authority := (r.printed port).text
  path := []
  query := none
  fragment := none
  name_eq := by cases r.scheme <;> decide
  authority_ne := fun hnil => host_printed_ne_nil h (congrArg Authority.host hnil)
  authority_ok := check_printed h
  path_start := by simp
  path_ok := rfl
  query_ok := rfl

/-- The printed URL is accepted and has the route that was printed. -/
theorem reads_printed (h : IsPrintable r.host) (hlower : Text.lower r.host = r.host)
    (hport : port.getD r.scheme.defaultPort = r.port)
    (hlength : Text.octetLength (printedUrl h port).text ≤ Uri.maxLength) :
    Reads (printedUrl h port).text r := by
  have hscheme : (printedUrl h port).uri.scheme.bind Scheme.ofName? = some r.scheme :=
    Scheme.ofName?_name r.scheme
  refine ⟨_, Url.parse_text hlength, ?_⟩
  rw [ofUri_of_host hscheme rfl (host_printed_ne_nil h)]
  exact congrArg Except.ok (new_printed h hlower hport)

/-- The authority behind the scheme, as the URL of the route without a path. -/
def origin (r : Route) : Text := r.scheme.name ++ ("://".toList ++ r.authority)

/-- The port that the authority shows. -/
def shownPort (r : Route) : Option UInt16 :=
  if r.port = r.scheme.defaultPort then none else some r.port

/-- The port that is not shown is the default of the scheme. -/
theorem getD_shownPort (r : Route) : r.shownPort.getD r.scheme.defaultPort = r.port := by
  unfold shownPort
  split
  · next hport => exact hport.symm
  · rfl

/-- The authority of a route is the printed one with the port that is shown. -/
theorem authority_eq_printed (r : Route) : r.authority = (r.printed r.shownPort).text := by
  unfold authority shownPort
  split <;> simp [printed, Authority.Parts.text, Authority.Parts.front, Authority.Parts.back,
    Text.behind]

/-- The full form of a route is the printed URL with its port. -/
theorem display_eq_printedUrl (h : IsPrintable r.host) :
    r.display = (printedUrl h (some r.port)).text := by
  simp [display, Url.text, printedUrl, printed, Uri.written, Authority.Parts.text,
    Authority.Parts.front, Authority.Parts.back, Text.behind]

/-- The short form of a route is the printed URL with the port that is shown. -/
theorem origin_eq_printedUrl (h : IsPrintable r.host) :
    r.origin = (printedUrl h r.shownPort).text := by
  simp [origin, authority_eq_printed, Url.text, printedUrl, Uri.written, Text.behind]

/-- The short form is no longer than the full one. -/
theorem octetLength_origin_le (r : Route) :
    Text.octetLength r.origin ≤ Text.octetLength r.display := by
  have hauthority : Text.octetLength r.authority ≤
      Text.octetLength (r.bracketedHost ++ ':' :: Decimal.write r.port.toNat) := by
    unfold authority
    split
    · rw [Text.octetLength_append]
      omega
    · exact le_rfl
  simp only [origin, display, Text.octetLength_append] at hauthority ⊢
  omega

/-- Routes of one scheme that print the same authority are the same route. -/
theorem eq_of_authority_eq {r' : Route} (h : IsPrintable r.host)
    (hlower : Text.lower r.host = r.host) (h' : IsPrintable r'.host)
    (hlower' : Text.lower r'.host = r'.host) (hscheme : r'.scheme = r.scheme)
    (hsame : r'.authority = r.authority) : r' = r := by
  rw [authority_eq_printed, authority_eq_printed] at hsame
  rw [← new_printed h hlower r.getD_shownPort, ← new_printed h' hlower' r'.getD_shownPort, hsame,
    hscheme]

/-- Both printed forms of a route are read as this route, and the authority is printed of no other
route of the scheme. -/
theorem printing_undone (scheme : Scheme) (port : UInt16) (h : IsPrintable host) :
    (Text.octetLength (new scheme host port).display ≤ Uri.maxLength →
      Reads (new scheme host port).display (new scheme host port)) ∧
    (Text.octetLength (new scheme host port).origin ≤ Uri.maxLength →
      Reads (new scheme host port).origin (new scheme host port)) ∧
    Text.octetLength (new scheme host port).origin ≤
      Text.octetLength (new scheme host port).display ∧
    ∀ host' port', IsPrintable host' →
      (new scheme host' port').authority = (new scheme host port).authority →
      new scheme host' port' = new scheme host port := by
  have hprintable : IsPrintable (new scheme host port).host := h.lower
  have hlower : Text.lower (new scheme host port).host = (new scheme host port).host :=
    Text.lower_lower host
  refine ⟨?_, ?_, octetLength_origin_le _, ?_⟩
  · intro hlength
    rw [display_eq_printedUrl hprintable] at hlength ⊢
    exact reads_printed hprintable hlower rfl hlength
  · intro hlength
    rw [origin_eq_printedUrl hprintable] at hlength ⊢
    exact reads_printed hprintable hlower (getD_shownPort _) hlength
  · intro host' port' h' hsame
    exact eq_of_authority_eq hprintable hlower h'.lower (Text.lower_lower host') rfl hsame

/-- An address with a zone and as many colons as can be, which only brackets keep from being taken
for the colon of a port. -/
theorem printing_undone_address :
    (new .https "Fe80::::::::1%25Eth0".toList 443).origin =
        "https://[fe80::::::::1%25eth0]".toList ∧
      Reads "https://[fe80::::::::1%25eth0]".toList ⟨.https, "fe80::::::::1%25eth0".toList, 443⟩ ∧
      Reads "https://[fe80::::::::1%25eth0]:443".toList
        ⟨.https, "fe80::::::::1%25eth0".toList, 443⟩ := by
  have hchars : "Fe80::::::::1%25Eth0".toList.all isAddressChar = true := by decide
  have hprintable : IsPrintable "Fe80::::::::1%25Eth0".toList :=
    .inr ⟨List.all_eq_true.1 hchars, by decide, by decide⟩
  obtain ⟨hdisplay, horigin, -, -⟩ := printing_undone .https 443 hprintable
  exact ⟨by decide, horigin (by decide), hdisplay (by decide)⟩

end PooledHttp.Route
