import PooledHttp.Proofs.Client.Preparing

/-!
# The header of a request that is sent

A header holds any number of values for a name. Adding a line in place of all lines of its name
changes the values of that name alone (`Header.getAll_insert`), so what the preparation of a request
does to a header can be told name by name: only `Host` and `Expect` are touched, each under a
condition of its own, and neither ever has a value of the caller's beside a new one
(`Request.header_sent`).
-/

set_option autoImplicit false

namespace PooledHttp

namespace Header

variable {h : Header} {name value other : Text}

/-- A header has a name exactly if there is a value for it. -/
theorem has_iff : h.has name = true ↔ h.getAll name ≠ [] := by
  simp only [has, getAll, List.any_eq_true, beq_iff_eq, ne_eq, List.filterMap_eq_nil_iff,
    not_forall, ite_eq_right_iff, reduceCtorEq, imp_false, not_not, exists_prop]

/-- There is no value for a name exactly if the header does not have it. -/
theorem getAll_eq_nil_iff : h.getAll name = [] ↔ h.has name = false := by
  rw [← Bool.not_eq_true, has_iff, not_not]

/-- The lines of other names do not matter for the values of a name. -/
theorem getAll_filter_ne (hne : other ≠ name) :
    (⟨h.lines.filter fun line => line.1 != name⟩ : Header).getAll other = h.getAll other := by
  rw [getAll, getAll, List.filterMap_filter]
  apply List.filterMap_congr
  intro line _
  by_cases hline : line.1 = other
  · simp [hline, hne]
  · simp [hline]

/-- A line that is put in place of all lines of its name is the only one of this name, and the values
of all other names are what they were. -/
theorem getAll_insert :
    (h.insert name value).getAll other = if other = name then [value] else h.getAll other := by
  have hsplit : (h.insert name value).getAll other =
      (⟨h.lines.filter fun line => line.1 != name⟩ : Header).getAll other ++
        if name = other then [value] else [] := by
    simp only [insert, getAll, List.filterMap_append]
    by_cases hname : name = other <;> simp [hname]
  rw [hsplit]
  by_cases hname : other = name
  · subst hname
    have hnone : (⟨h.lines.filter fun line => line.1 != other⟩ : Header).getAll other = [] := by
      simp [getAll]
    rw [hnone, if_pos rfl, if_pos rfl, List.nil_append]
  · rw [getAll_filter_ne hname, if_neg (Ne.symm hname), if_neg hname, List.append_nil]

/-- Announcing the body replaces the values of one name and leaves all others. -/
theorem getAll_withExpect {announce : Bool} :
    (h.withExpect announce).getAll other =
      if announce = true ∧ other = expectName then [continueValue] else h.getAll other := by
  cases announce with
  | false => simp [withExpect]
  | true => simp [withExpect, getAll_insert]

end Header

namespace Request

variable {r : Request} {expectContinue : Bool} {route : Route} {sent : WireRequest}

/-- A request that can be prepared goes out with one target or another. -/
theorem exists_of_prepare (h : r.prepare expectContinue route = .ok sent) :
    ∃ target, sent = r.wire expectContinue route target := by
  cases hparse : Uri.parse r.uri.target with
  | error e =>
    rw [prepare_of_parse_error hparse] at h
    cases h
  | ok target =>
    refine ⟨target.display, ?_⟩
    simp only [prepare, hparse, Header.withHost] at h
    simp only [wire]
    by_cases hhost : r.header.has hostName = true
    · simpa [hhost] using h.symm
    · by_cases hvalue : Header.isValue route.authority = true
      · simpa [hhost, hvalue] using h.symm
      · simp [hhost, hvalue] at h

/-- The request announces its body: there is one, and the client is set to announce bodies. -/
def Announces (r : Request) (expectContinue : Bool) : Prop := expectContinue = true ∧ r.body ≠ []

/-- Whether a request announces its body can be computed. -/
instance : Decidable (r.Announces expectContinue) := instDecidableAnd

/-- A request announces its body exactly if that is set and the body is not empty. -/
theorem announces_iff : r.Announces expectContinue ↔ (expectContinue && !r.body.isEmpty) = true := by
  simp [Announces]

/-- The values that are sent for a name, for each name. -/
theorem getAll_wire (name target : Text) :
    (r.wire expectContinue route target).header.getAll name =
      if r.Announces expectContinue ∧ name = expectName then [continueValue]
      else if r.header.getAll hostName = [] ∧ name = hostName then [route.authority]
      else r.header.getAll name := by
  rw [wire, Header.getAll_withExpect]
  simp only [announces_iff, Header.getAll_eq_nil_iff]
  by_cases hhost : r.header.has hostName = true
  · simp [hhost]
  · simp [hhost, Header.getAll_insert]

/-- A request goes out as the caller gave it, but for two names: `Host` is filled in where the caller
left it out, and `Expect` gives way to the announcement of a body. -/
structure SentAs (r : Request) (expectContinue : Bool) (route : Route) (sent : WireRequest) :
    Prop where
  method : sent.method = r.method
  version : sent.version = r.version
  body : sent.body = r.body
  host : sent.header.getAll hostName =
    if r.header.getAll hostName = [] then [route.authority] else r.header.getAll hostName
  expect : sent.header.getAll expectName =
    if r.Announces expectContinue then [continueValue] else r.header.getAll expectName
  /-- Every value of every other name is sent, in the caller's order, and nothing else is. -/
  others : ∀ name, name ≠ hostName → name ≠ expectName →
    sent.header.getAll name = r.header.getAll name
  /-- No name is there that the caller did not give, but for these two. -/
  names : ∀ name, sent.header.has name = true ↔
    r.header.has name = true ∨ name = hostName ∨ name = expectName ∧ r.Announces expectContinue

/-- The two names that a client fills in are different. -/
theorem hostName_ne_expectName : hostName ≠ expectName := by decide

/-- What is put on the wire is what a request is sent as. -/
theorem sentAs_wire (target : Text) :
    r.SentAs expectContinue route (r.wire expectContinue route target) where
  method := rfl
  version := rfl
  body := rfl
  host := by simp [getAll_wire, hostName_ne_expectName]
  expect := by simp [getAll_wire, hostName_ne_expectName.symm]
  others := by
    intro name hhost hexpect
    simp [getAll_wire, hhost, hexpect]
  names := by
    intro name
    rw [Header.has_iff, Header.has_iff, getAll_wire]
    by_cases hexpect : r.Announces expectContinue ∧ name = expectName
    · simp [hexpect]
    · by_cases hhost : r.header.getAll hostName = [] ∧ name = hostName
      · rw [if_neg hexpect, if_pos hhost]
        simp [hhost.2]
      · -- the caller's own values go out, and there are some for the name of the host
        have hgiven : name = hostName → r.header.getAll name ≠ [] := by
          rintro rfl hnone
          exact hhost ⟨hnone, rfl⟩
        rw [if_neg hexpect, if_neg hhost]
        tauto

/-- Whatever lines the caller gives, in any number and any order: a request that can be prepared goes
out with the caller's method, version and body, and with the caller's header lines. The caller's
`Host` lines go out unchanged if there are any, otherwise one with the route's authority; the
caller's `Expect` lines make way for one announcement if there is a body to announce. -/
theorem header_sent (h : r.prepare expectContinue route = .ok sent) :
    r.SentAs expectContinue route sent := by
  obtain ⟨target, rfl⟩ := exists_of_prepare h
  exact sentAs_wire target

/-- Cookies are given twice, around an `Expect` line of the caller's own, and there is no `Host` line:
both cookies are sent in order, and each of the other two names has one value. -/
theorem header_sent_cookies :
    let cookie : Text := "cookie".toList
    let uri : Uri := ⟨some "http".toList, some "h:81".toList, ['/'], none⟩
    let request : Request := ⟨.put, uri, .http11,
      ⟨[(cookie, ['a']), (expectName, ['x']), (cookie, ['b']), (expectName, ['y'])]⟩, [1]⟩
    let sent : WireRequest := ⟨.put, ['/'], .http11,
      ⟨[(cookie, ['a']), (cookie, ['b']), (hostName, "h:81".toList), (expectName, continueValue)]⟩,
      [1]⟩
    request.SentAs true ⟨.http, ['h'], 81⟩ sent ∧ sent.header.getAll cookie = [['a'], ['b']] := by
  intro cookie uri request sent
  have hprepare : request.prepare true ⟨.http, ['h'], 81⟩ = .ok sent := rfl
  exact ⟨header_sent hprepare, rfl⟩

end Request
end PooledHttp
