import PooledHttp.Proofs.Text.Pieces
import PooledHttp.Uri.Authority

/-!
# Which authorities are accepted, and what is read out of them

The scan of an authority counts. `Scan.Passed` says what the scan knows after a stretch of text in
terms of the characters in that stretch; it is proved for one character and carried over a text by
induction. An accepted authority therefore holds at most one bracket of each kind, and at most one
colon behind its last `@` and its last `]`.

An authority that is put together from user information, host and port (`Authority.Parts`) is taken
apart into the same host and port: user information cannot be mistaken for either, whatever it
holds, since a port has no `@` and nothing up to the last `@` is looked at for the host.
-/

set_option autoImplicit false

namespace PooledHttp.Authority

variable {s s' m : Scan} {c : Char} {t x y : Text}

/-! ## The scan -/

/-- What the scan knows after a stretch of text. The brackets are counted all along, the colons
since the last character that starts them afresh. -/
structure Scan.Passed (s : Scan) (t : Text) (s' : Scan) : Prop where
  allowed : ∀ c ∈ t, isAllowed c = true
  opened : s'.opened.toNat = s.opened.toNat + t.count '['
  closed : s'.closed.toNat = s.closed.toNat + t.count ']'
  colons : '@' ∉ t → ']' ∉ t → s'.colons = s.colons + t.count ':'

/-- A character that the scan accepts has been passed. -/
theorem Scan.step_passed (h : s.step c = .ok s') : s.Passed [c] s' := by
  unfold step at h
  split at h
  · cases h
  -- one case for each character that counts: colon, percent sign, brackets, at sign
  case isFalse hallowed =>
  have hall : ∀ d ∈ [c], isAllowed d = true := by simpa using hallowed
  split at h
  case isTrue hc =>
    subst hc
    split at h
    · cases h
    · cases h
      exact ⟨hall, rfl, rfl, fun _ _ => rfl⟩
  case isFalse hcolon =>
  split at h
  case isTrue hc =>
    subst hc
    cases h
    exact ⟨hall, rfl, rfl, fun _ _ => rfl⟩
  split at h
  case isTrue hc =>
    subst hc
    split at h
    · cases h
    case isFalse hfirst =>
      cases h
      simp only [Bool.or_eq_true, not_or, Bool.not_eq_true] at hfirst
      exact ⟨hall, by simp [hfirst.2], rfl, fun _ _ => rfl⟩
  case isFalse hopen =>
  split at h
  case isTrue hc =>
    subst hc
    split at h
    · cases h
    case isFalse hfirst =>
      cases h
      simp only [Bool.or_eq_true, not_or, Bool.not_eq_true] at hfirst
      exact ⟨hall, rfl, by simp [hfirst.2], fun _ hclose => absurd List.mem_cons_self hclose⟩
  case isFalse hclose =>
  split at h
  case isTrue hc =>
    subst hc
    cases h
    exact ⟨hall, rfl, rfl, fun hat => absurd List.mem_cons_self hat⟩
  · cases h
    exact ⟨hall, by simp [hopen], by simp [hclose], fun _ _ => by simp [hcolon]⟩

/-- Two texts passed one after the other are passed as one. -/
theorem Scan.Passed.append (hx : s.Passed x m) (hy : m.Passed y s') : s.Passed (x ++ y) s' where
  allowed := by
    intro c hc
    rcases List.mem_append.1 hc with hc | hc
    · exact hx.allowed c hc
    · exact hy.allowed c hc
  opened := by
    rw [List.count_append, hy.opened, hx.opened, Nat.add_assoc]
  closed := by
    rw [List.count_append, hy.closed, hx.closed, Nat.add_assoc]
  colons := by
    intro hat hclose
    simp only [List.mem_append, not_or] at hat hclose
    rw [List.count_append, hy.colons hat.2 hclose.2, hx.colons hat.1 hclose.1, Nat.add_assoc]

/-- A text that the scan accepts has been passed. -/
theorem Scan.run_passed (h : s.run t = .ok s') : s.Passed t s' := by
  induction t generalizing s with
  | nil =>
    cases h
    exact ⟨by simp, rfl, rfl, fun _ _ => rfl⟩
  | cons c t ih =>
    unfold run at h
    split at h
    · next hstep => exact (step_passed hstep).append (ih h)
    · cases h

/-- The scan of two texts is the scan of the second from where that of the first ends. -/
theorem Scan.run_append : s.run (x ++ y) = (s.run x).bind (·.run y) := by
  induction x generalizing s with
  | nil => rfl
  | cons c x ih =>
    rw [List.cons_append, run, run]
    cases s.step c with
    | ok s' => exact ih
    | error e => rfl

/-- An accepted text is accepted piece by piece. -/
theorem Scan.exists_of_run_append (h : s.run (x ++ y) = .ok s') :
    ∃ m, s.run x = .ok m ∧ m.run y = .ok s' := by
  rw [run_append] at h
  cases hx : s.run x with
  | ok m => exact ⟨m, rfl, by rwa [hx] at h⟩
  | error e =>
    rw [hx] at h
    cases h

/-- The characters that leave the brackets and the user information alone. -/
def isInner (c : Char) : Bool := isAllowed c && c != '[' && c != ']' && c != '@'

/-- An inner character changes the count of colons and the percent mark only. -/
theorem Scan.step_inner (hc : isInner c = true) (hcolons : s.colons + [c].count ':' ≤ maxColons) :
    s.step c = .ok { s with
      colons := s.colons + [c].count ':', percent := s.percent || [c].contains '%' } := by
  simp only [isInner, Bool.and_eq_true, bne_iff_ne, ne_eq] at hc
  obtain ⟨⟨⟨hallowed, hopen⟩, hclose⟩, hat⟩ := hc
  by_cases hcolon : c = ':'
  · subst hcolon
    have hroom : ¬s.colons ≥ maxColons := by
      have hone : [':'].count ':' = 1 := rfl
      omega
    simp [step, hallowed, hroom]
  · by_cases hpercent : c = '%'
    · subst hpercent
      simp [step, hallowed]
    · have hother : '%' ≠ c := Ne.symm hpercent
      simp [step, hallowed, hcolon, hpercent, hopen, hclose, hat, hother]

/-- A stretch without brackets and `@` passes as long as its colons are not too many. -/
theorem Scan.run_inner (ht : ∀ c ∈ t, isInner c = true)
    (hcolons : s.colons + t.count ':' ≤ maxColons) :
    s.run t = .ok { s with
      colons := s.colons + t.count ':', percent := s.percent || t.contains '%' } := by
  induction t generalizing s with
  | nil => simp [run]
  | cons c t ih =>
    have hcount : (c :: t).count ':' = [c].count ':' + t.count ':' := by
      rw [← List.count_append, List.singleton_append]
    have hcontains : (c :: t).contains '%' = ([c].contains '%' || t.contains '%') := by
      rw [← List.contains_append, List.singleton_append]
    rw [hcount] at hcolons
    have hstep := @step_inner s c (ht c List.mem_cons_self) (by omega)
    rw [hcount, hcontains, run, hstep]
    simp only
    rw [ih fun d hd => ht d (List.mem_cons_of_mem c hd)]
    · simp only [Nat.add_assoc, Bool.or_assoc]
    · simp only
      omega

/-- A bracket is closed only behind one that has been opened. -/
theorem Scan.opened_of_closed (h : s.run t = .ok s') (hs : s.closed = true → s.opened = true)
    (hclosed : s'.closed = true) : s'.opened = true := by
  induction t generalizing s with
  | nil =>
    cases h
    exact hs hclosed
  | cons c t ih =>
    unfold run at h
    split at h
    case h_2 => cases h
    case h_1 m hstep =>
      apply ih h
      intro hm
      unfold step at hstep
      repeat' split at hstep
      all_goals cases hstep
      all_goals simp_all

/-! ## Accepted authorities -/

/-- An authority is valid exactly if the scan accepts it and ends in a fitting state. -/
theorem check_eq_ok_iff : check t = .ok () ↔ ∃ s, Scan.start.run t = .ok s ∧
    s.opened = s.closed ∧ s.colons ≤ 1 ∧ t.getLast? ≠ some '@' ∧ s.percent = false := by
  unfold check
  cases hrun : Scan.start.run t with
  | error e => simp
  | ok s => simp [and_assoc]

/-- Inner characters are neither brackets nor the end of user information. -/
theorem not_mem_of_inner (ht : ∀ c ∈ t, isInner c = true) : '[' ∉ t ∧ ']' ∉ t ∧ '@' ∉ t :=
  ⟨Text.not_mem_of_forall ht (by decide), Text.not_mem_of_forall ht (by decide),
    Text.not_mem_of_forall ht (by decide)⟩

/-- A name with a port is accepted. -/
theorem check_of_inner (ht : ∀ c ∈ t, isInner c = true) (hcolons : t.count ':' ≤ 1)
    (hpercent : '%' ∉ t) : check t = .ok () := by
  have hmany : Scan.start.colons + t.count ':' ≤ maxColons := by
    have height : maxColons = 8 := rfl
    have hzero : Scan.start.colons = 0 := rfl
    omega
  refine check_eq_ok_iff.2 ⟨_, Scan.run_inner ht hmany, rfl, ?_, ?_, ?_⟩
  · simpa [Scan.start] using hcolons
  · intro hlast
    exact (not_mem_of_inner ht).2.2 (List.mem_of_getLast? hlast)
  · simp [Scan.start, hpercent]

/-- An address in brackets with a port is accepted: behind the brackets the count starts afresh. -/
theorem check_of_brackets (hx : ∀ c ∈ x, isInner c = true) (hmany : x.count ':' ≤ maxColons)
    (hy : ∀ c ∈ y, isInner c = true) (hcolons : y.count ':' ≤ 1) (hpercent : '%' ∉ y) :
    check ('[' :: (x ++ ']' :: y)) = .ok () := by
  have hopen : Scan.start.step '[' = .ok ⟨0, false, true, false⟩ := rfl
  have hinside : Scan.run ⟨0, false, true, false⟩ x =
      .ok ⟨x.count ':', x.contains '%', true, false⟩ := by
    rw [Scan.run_inner hx (by simpa using hmany)]
    simp
  have hclose : Scan.step ⟨x.count ':', x.contains '%', true, false⟩ ']' =
      .ok ⟨0, false, true, true⟩ := rfl
  have hbehind : Scan.run ⟨0, false, true, true⟩ y = .ok ⟨y.count ':', false, true, true⟩ := by
    have hle : 0 + y.count ':' ≤ maxColons := by
      have height : maxColons = 8 := rfl
      omega
    rw [Scan.run_inner hy hle]
    simp [hpercent]
  refine check_eq_ok_iff.2 ⟨⟨y.count ':', false, true, true⟩, ?_, rfl, hcolons, ?_, rfl⟩
  · rw [Scan.run, hopen]
    simp only [Scan.run_append, hinside, Except.bind, Scan.run, hclose, hbehind]
  · intro hlast
    have hmem := List.mem_of_getLast? hlast
    simp [(not_mem_of_inner hx).2.2, (not_mem_of_inner hy).2.2] at hmem

/-- A valid authority is passed by the scan, with at most one colon at its end. -/
theorem exists_passed_of_check (h : check t = .ok ()) :
    ∃ s, Scan.start.Passed t s ∧ s.colons ≤ 1 := by
  obtain ⟨s, hrun, -, hcolons, -⟩ := check_eq_ok_iff.1 h
  exact ⟨s, Scan.run_passed hrun, hcolons⟩

/-- A valid authority holds allowed characters only. -/
theorem isAllowed_of_check (h : check t = .ok ()) (hc : c ∈ t) : isAllowed c = true := by
  obtain ⟨s, hpassed, -⟩ := exists_passed_of_check h
  exact hpassed.allowed c hc

/-- No allowed character ends an authority. -/
theorem not_isEnd_of_isAllowed (h : isAllowed c = true) : isEnd c = false := by
  by_contra hend
  simp only [isEnd, Bool.or_eq_true, beq_iff_eq, Bool.not_eq_false] at hend
  obtain (rfl | rfl) | rfl := hend <;> revert h <;> decide

/-- An authority that ends with an open bracket is refused. -/
theorem not_check_of_open (hy : ']' ∉ y) : check (x ++ '[' :: y) ≠ .ok () := by
  intro hcheck
  obtain ⟨s, hrun, hpaired, -⟩ := check_eq_ok_iff.1 hcheck
  obtain ⟨m, hfront, hback⟩ := Scan.exists_of_run_append hrun
  have hopened := (Scan.run_passed hback).opened
  have hclosed := (Scan.run_passed hback).closed
  rw [List.count_cons_self] at hopened
  have hone := Bool.toNat_le s.opened
  have hbefore : m.opened = false := by
    rw [← Bool.toNat_eq_zero]
    omega
  have hunclosed : m.closed = false := by
    by_contra hm
    have hm' := Scan.opened_of_closed hfront nofun (by simpa using hm)
    rw [hbefore] at hm'
    cases hm'
  have hnone : ('[' :: y).count ']' = 0 := List.count_eq_zero.2 (by simp [hy])
  rw [hunclosed, hnone, Bool.toNat_false] at hclosed
  rw [hpaired] at hopened
  omega

/-- A valid authority has at most one opening bracket. -/
theorem count_open_le_one (h : check t = .ok ()) : t.count '[' ≤ 1 := by
  obtain ⟨s, hpassed, -⟩ := exists_passed_of_check h
  have hopened := hpassed.opened
  have hle := Bool.toNat_le s.opened
  omega

/-- A valid authority has at most one closing bracket. -/
theorem count_close_le_one (h : check t = .ok ()) : t.count ']' ≤ 1 := by
  obtain ⟨s, hpassed, -⟩ := exists_passed_of_check h
  have hclosed := hpassed.closed
  have hle := Bool.toNat_le s.closed
  omega

/-- Behind the last `@` and the last `]` there is one colon at most. -/
theorem count_colon_le_one (h : check (x ++ y) = .ok ()) (hat : '@' ∉ y) (hclose : ']' ∉ y) :
    y.count ':' ≤ 1 := by
  obtain ⟨s, hrun, -, hcolons, -⟩ := check_eq_ok_iff.1 h
  obtain ⟨m, -, hrest⟩ := Scan.exists_of_run_append hrun
  have htail := (Scan.run_passed hrest).colons hat hclose
  omega

/-! ## Host and port -/

/-- Without user information, all of the authority is host and port. -/
theorem hostAndPort_of_not_mem (h : '@' ∉ t) : hostAndPort t = t := by
  rw [hostAndPort, Text.afterLast?_eq_none_iff.2 h, Option.getD_none]

/-- Host and port stand behind the last end of user information. -/
theorem hostAndPort_behind (hy : '@' ∉ y) : hostAndPort (x ++ '@' :: y) = y := by
  rw [hostAndPort, Text.afterLast?_append hy, Option.getD_some]

/-- What holds no `@` is behind the user information. -/
theorem hostAndPort_append (hy : '@' ∉ y) : hostAndPort (x ++ y) = hostAndPort x ++ y := by
  by_cases hat : '@' ∈ x
  · obtain ⟨u, hu⟩ := Option.ne_none_iff_exists'.1
      (mt Text.afterLast?_eq_none_iff.1 (not_not.2 hat))
    obtain ⟨z, rfl, hnot⟩ := Text.afterLast?_eq_some_iff.1 hu
    rw [hostAndPort_behind hnot, List.append_assoc, List.cons_append,
      hostAndPort_behind (by simp [hnot, hy])]
  · rw [hostAndPort_of_not_mem hat, hostAndPort_of_not_mem (by simp [hat, hy])]

/-- Host and port are a part of the authority. -/
theorem hostAndPort_sublist (t : Text) : (hostAndPort t).Sublist t := by
  by_cases hat : '@' ∈ t
  · obtain ⟨y, hy⟩ := Option.ne_none_iff_exists'.1
      (mt Text.afterLast?_eq_none_iff.1 (not_not.2 hat))
    obtain ⟨x, hsplit, -⟩ := Text.afterLast?_eq_some_iff.1 hy
    rw [hostAndPort, hy, Option.getD_some, hsplit]
    exact (List.sublist_cons_self '@' y).trans (List.sublist_append_right x _)
  · rw [hostAndPort_of_not_mem hat]

/-- A host in brackets runs up to its closing bracket; another one is cut out of the authority. -/
theorem host_cases (t : Text) : (∃ x, host t = x ++ [']'] ∧ ']' ∉ x ∧ x.Sublist t) ∨
    ((host t).head? ≠ some '[' ∧ (host t).Sublist t) := by
  have hrest := hostAndPort_sublist t
  by_cases hopen : (hostAndPort t).head? = some '['
  · left
    refine ⟨(hostAndPort t).takeWhile (· != ']'), if_pos hopen, ?_,
      (List.takeWhile_sublist _).trans hrest⟩
    intro hmem
    have hne := List.mem_takeWhile_imp hmem
    simp at hne
  · right
    have hhost : host t = (hostAndPort t).takeWhile (· != ':') := if_neg hopen
    rw [hhost]
    refine ⟨?_, (List.takeWhile_sublist _).trans hrest⟩
    intro hhead
    rw [List.head?_takeWhile, Option.filter_eq_some_iff] at hhead
    exact hopen hhead.1

/-- The host of a valid authority has at most one opening bracket. -/
theorem count_open_host_le_one (h : check t = .ok ()) : (host t).count '[' ≤ 1 := by
  have hone := count_open_le_one h
  obtain ⟨x, hhost, -, hx⟩ | ⟨-, hhost⟩ := host_cases t
  · have hcount := hx.count_le '['
    rw [hhost, List.count_append]
    simp
    omega
  · exact (hhost.count_le '[').trans hone

/-- The host of a valid authority has at most one closing bracket. -/
theorem count_close_host_le_one (h : check t = .ok ()) : (host t).count ']' ≤ 1 := by
  have hone := count_close_le_one h
  obtain ⟨x, hhost, hx, -⟩ | ⟨-, hhost⟩ := host_cases t
  · rw [hhost, List.count_append, List.count_eq_zero.2 hx]
    simp
  · exact (hhost.count_le ']').trans hone

/-- The port is behind the user information, whatever this holds. -/
theorem exists_of_port? {n : Nat} (h : port? t = some n) :
    ∃ x p, hostAndPort t = x ++ ':' :: p ∧ Decimal.Denotes p n ∧ n ≤ Decimal.maxPort := by
  obtain ⟨p, hlast, hread⟩ := Option.bind_eq_some_iff.1 h
  obtain ⟨x, rfl, -⟩ := Text.afterLast?_eq_some_iff.1 hlast
  obtain ⟨hdenotes, hle⟩ := Decimal.read?_eq_some_iff.1 hread
  have hat : '@' ∉ p := hdenotes.not_mem (by decide) (by decide)
  refine ⟨hostAndPort x, p, ?_, hdenotes, hle⟩
  exact hostAndPort_append (by simp [hat])

/-- What stands behind the last colon is read as the port. -/
theorem port?_append (hp : ':' ∉ t) : port? (x ++ ':' :: t) = Decimal.read? Decimal.maxPort t := by
  rw [port?, Text.afterLast?_append hp, Option.bind_some]

/-- An authority by its parts: user information in front of an `@`, a host as it is written, and a
port behind a colon. -/
structure Parts where
  user : Option Text
  host : Text
  port : Option Text

namespace Parts

variable {p : Parts}

/-- The user information with its `@`. -/
def front (p : Parts) : Text := p.user.elim [] (· ++ ['@'])

/-- The port with its colon. -/
def back (p : Parts) : Text := Text.behind ':' p.port

/-- The authority as it is written. -/
def text (p : Parts) : Text := p.front ++ (p.host ++ p.back)

/-- The host is in brackets or has no colon, and user information ends with the last `@`. -/
structure WellCut (p : Parts) : Prop where
  host : (∃ inner, p.host = '[' :: inner ++ [']'] ∧ ']' ∉ inner) ∨
    (':' ∉ p.host ∧ p.host.head? ≠ some '[')
  host_at : '@' ∉ p.host
  port_at : ∀ t, p.port = some t → '@' ∉ t

/-- A well cut authority has its host and what follows behind the user information. -/
theorem hostAndPort_text (h : p.WellCut) : hostAndPort p.text = p.host ++ p.back := by
  have hat : '@' ∉ p.host ++ p.back := by
    have hback : '@' ∉ p.back := by
      cases hport : p.port with
      | none => simp [back, hport, Text.behind]
      | some t => simpa [back, hport, Text.behind] using h.port_at t hport
    simp [h.host_at, hback]
  cases huser : p.user with
  | none => simpa [text, front, huser] using hostAndPort_of_not_mem hat
  | some u => simpa [text, front, huser] using hostAndPort_behind (x := u) hat

/-- The host of a well cut authority is the one that was written. -/
theorem host_text (h : p.WellCut) : Authority.host p.text = p.host := by
  rw [Authority.host, hostAndPort_text h]
  rcases h.host with ⟨inner, hhost, hinner⟩ | ⟨hcolon, hhead⟩
  · have hopen : (p.host ++ p.back).head? = some '[' := by simp [hhost]
    have hcut : (p.host ++ p.back).takeWhile (· != ']') = '[' :: inner := by
      rw [hhost, List.append_assoc]
      exact Text.takeWhile_ne_append (by simp [hinner]) (by simp)
    rw [if_pos hopen, hcut, hhost]
  · have hopen : (p.host ++ p.back).head? ≠ some '[' := by
      intro hbracket
      rw [List.head?_append] at hbracket
      cases hp : p.host.head? with
      | none =>
        rw [hp] at hbracket
        cases Text.eq_of_head?_behind hbracket
      | some c => exact hhead (by rwa [hp] at hbracket ⊢)
    rw [if_neg hopen]
    exact Text.takeWhile_ne_append hcolon fun c hc => Text.eq_of_head?_behind hc

/-- A port that is not written is not found anywhere else. -/
theorem port?_text_of_none (h : p.WellCut) (hport : p.port = none) : port? p.text = none := by
  by_contra hsome
  obtain ⟨n, hn⟩ := Option.ne_none_iff_exists'.1 hsome
  obtain ⟨x, t, hsplit, hdenotes, -⟩ := exists_of_port? hn
  have hhost : p.host = x ++ ':' :: t := by
    simpa [hostAndPort_text h, back, hport, Text.behind] using hsplit
  rcases h.host with ⟨inner, hinner, -⟩ | ⟨hcolon, -⟩
  · -- the last character would be a bracket and belong to the port
    have hclose : ']' ∈ t := by
      obtain ⟨t', c, rfl⟩ : ∃ t' c, t = t' ++ [c] := by
        obtain hnil | hconcat := List.eq_nil_or_concat t
        · exact absurd hnil hdenotes.ne_nil
        · simpa using hconcat
      have hends : (x ++ ':' :: t') ++ [c] = ('[' :: inner) ++ [']'] := by
        rw [← hinner, hhost]
        simp
      have hlast := (List.append_inj' hends rfl).2
      simp_all
    exact hdenotes.not_mem (by decide) (by decide) hclose
  · exact hcolon (by simp [hhost])

/-- A written port stands behind the last colon. -/
theorem text_of_port {t : Text} (hport : p.port = some t) :
    p.text = (p.front ++ p.host) ++ ':' :: t := by
  simp [text, back, hport, Text.behind]

/-- A written port is read as a number, when it is accepted and holds no bracket. -/
theorem port?_text_of_check {t : Text} (h : p.WellCut) (hport : p.port = some t)
    (hcheck : check p.text = .ok ()) (hclose : ']' ∉ t) :
    port? p.text = Decimal.read? Decimal.maxPort t := by
  have hat := h.port_at t hport
  rw [text_of_port hport] at hcheck ⊢
  have hcount := count_colon_le_one hcheck (by simp [hat]) (by simp [hclose])
  have hcolon : ':' ∉ t := by
    rw [← List.count_eq_zero]
    simp at hcount
    omega
  exact port?_append hcolon

/-- A written port that denotes a number in range is read as that number. -/
theorem port?_text_of_denotes {t : Text} {n : Nat} (hport : p.port = some t)
    (hdenotes : Decimal.Denotes t n) (hle : n ≤ Decimal.maxPort) : port? p.text = some n := by
  rw [text_of_port hport, port?_append (hdenotes.not_mem (by decide) (by decide))]
  exact Decimal.read?_eq_some_iff.2 ⟨hdenotes, hle⟩

end Parts
end PooledHttp.Authority
