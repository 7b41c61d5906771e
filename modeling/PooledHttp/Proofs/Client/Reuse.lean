import PooledHttp.Proofs.Client.Holding
import PooledHttp.Proofs.Pool.Parting

/-!
# Which connections are used again

An attempt uses a connection from the moment its lease takes or opens it. The connection becomes idle,
and so can be used by another attempt, only when the attempt has read the whole response, nothing in
the response asks for the connection to be closed, the connection is open, and the pool is not shut
down (`Service.EndsCleanly`). However else the attempt comes to its end, the connection is closed.

Each happening either leaves the connection with the attempt or parts the two
(`Service.InRun.uses_happen`). A connection that another attempt uses later on has therefore been parted
with cleanly before.
-/

set_option autoImplicit false

namespace PooledHttp

/-- Between the commas of the value stands `close`, in any letter case and with blanks around it or
not. -/
def Text.HoldsClose (value : Text) : Prop :=
  ∃ element ∈ Text.cut ',' value, Text.sameLetters (Text.trim element) "close".toList = true

/-- A `Connection` line that can be read as text holds `close`. -/
def Header.CarriesClose (h : Header) : Prop :=
  ∃ value ∈ h.getAll "connection".toList, value.all Text.isPlain = true ∧ value.HoldsClose

/-- A header asks for the end of the connection exactly if it carries the token for it. -/
theorem Header.wantsClose_iff {h : Header} : h.wantsClose = true ↔ h.CarriesClose := by
  simp only [wantsClose, elements, List.any_eq_true, List.mem_flatMap, List.mem_filterMap]
  constructor
  · rintro ⟨element, ⟨value, ⟨line, hline, hreadable⟩, helement⟩, hclose⟩
    unfold readable? at hreadable
    split at hreadable
    case isTrue hplain =>
      obtain rfl := Option.some.inj hreadable
      exact ⟨line, hline, hplain, element, helement, hclose⟩
    case isFalse => cases hreadable
  · rintro ⟨value, hvalue, hplain, element, helement, hclose⟩
    exact ⟨element, ⟨value, ⟨value, hvalue, by rw [readable?, if_pos hplain]⟩, helement⟩, hclose⟩

namespace Client.Service

open Pool

variable {s t : Service} {x : Happening} {i j : CallId} {call : Call} {a b : Attempt} {c : ConnId}
  {pool : PoolSettings} {e : Ending}

/-- The attempt is under way, and its lease holds the connection. -/
def Uses (s : Service) (i : CallId) (a : Attempt) (c : ConnId) : Prop :=
  s.attempt? i = some a ∧ s.pool.HeldBy c a.lease

/-- The head of the response that a call is reading. -/
def head? (s : Service) (i : CallId) : Option ResponseHead :=
  (s.calls[i]?).bind fun call => match call.stage with
    | .exchanging _ reading => reading.head
    | .leasing _ | .finished _ _ | .cancelled => none

/-- The end of the body arrives after the head; the head does not ask for the connection to be closed,
the connection is open, and the pool is not shut down. -/
structure EndsCleanly (s : Service) (i : CallId) (c : ConnId) (x : Happening) : Prop where
  finished : x = .event (.arrive i .finished)
  read : ∃ head, s.head? i = some head ∧ ¬ head.header.CarriesClose
  live : s.pool.live c = true
  isOpen : s.pool.books.closed = false

/-- What a happening means for a connection that an attempt uses. -/
def Handled (s t : Service) (i : CallId) (a : Attempt) (c : ConnId) (clean : Prop) : Prop :=
  t.Uses i a c ∧ ¬ clean ∨
    (∀ j b, ¬ t.Uses j b c) ∧ System.Parting s.pool t.pool c a.route clean

/-- The head that a call has received is that of its reading. -/
theorem head?_of_exchanging (hi : s.calls[i]? = some call) {reading : Reading}
    (hstage : call.stage = .exchanging a reading) : s.head? i = reading.head := by
  simp [head?, hi, hstage]

/-- A call that has received a head is exchanging, and its reading has the head. -/
theorem exchanging_of_head {head : ResponseHead} (h : s.head? i = some head) :
    ∃ call a reading, s.calls[i]? = some call ∧ call.stage = .exchanging a reading ∧
      reading.head = some head := by
  obtain ⟨call, hi, hhead⟩ := Option.bind_eq_some_iff.1 h
  split at hhead
  case h_1 a reading hstage => exact ⟨call, a, reading, hi, hstage, hhead⟩
  all_goals cases hhead

/-- A clean end is the end of an attempt of the call. -/
theorem EndsCleanly.ending (h : s.EndsCleanly i c x) :
    ∃ e, s.ending? x = some e ∧ e.call = i := by
  obtain ⟨rfl, ⟨head, hhead, -⟩, -, -⟩ := h
  obtain ⟨call, a, reading, hi, hstage, hread⟩ := exchanging_of_head hhead
  refine ⟨⟨i, call.request, a, some (s.handing a ⟨head, reading.body⟩), .ok ⟨head, reading.body⟩⟩,
    ?_, rfl⟩
  simp [ending?, hi, hstage, Reading.receive, hread]

/-- Where no attempt ends, none ends cleanly. -/
theorem not_endsCleanly_of_none (hnone : s.ending? x = none) : ¬ s.EndsCleanly i c x := by
  intro h
  obtain ⟨e, he, -⟩ := h.ending
  rw [hnone] at he
  cases he

/-- Where an attempt of another call ends, none of this call ends cleanly. -/
theorem not_endsCleanly_of_ne (he : s.ending? x = some e) (hne : i ≠ e.call) :
    ¬ s.EndsCleanly i c x := by
  intro h
  obtain ⟨e', he', hi⟩ := h.ending
  obtain rfl : e = e' := Option.some.inj (he.symm.trans he')
  exact hne hi.symm

/-! ## One happening -/

/-- The connection that a call uses is the one of its lease, which is for its route. -/
theorem Uses.lease (hu : s.Uses i a c) (h : s.InRun pool) : ∃ lease,
    s.pool.leases[a.lease]? = some lease ∧ lease.route = a.route ∧ lease.phase.conn? = some c := by
  obtain ⟨call, hi, ha⟩ := attempt?_eq_some.1 hu.1
  obtain ⟨lease, hl, hroute⟩ := h.linked.lease i call a hi ha
  obtain ⟨lease', hl', hc⟩ := System.heldBy_iff.1 hu.2
  obtain rfl : lease = lease' := Option.some.inj (hl.symm.trans hl')
  exact ⟨lease, hl, hroute, hc⟩

/-- Once the two have parted, nobody uses the connection. -/
theorem handled_of_parting {clean : Prop} (ht : t.InRun pool)
    (hparting : System.Parting s.pool t.pool c a.route clean) : Handled s t i a c clean :=
  .inr ⟨fun _ b hu => hparting.not_heldBy ht.reachable.owning b.lease hu.2, hparting⟩

/-- An event that does not give up the lease leaves the connection in use, or finds it closed. -/
theorem Uses.handled_step (hu : s.Uses i a c) (h : s.InRun pool) (ht : t.InRun pool)
    (hattempt : t.attempt? i = s.attempt? i) {event : Pool.Event}
    (hpool : t.pool = s.pool.step event) (hevent : event.yields? ≠ some a.lease) {clean : Prop}
    (hnot : ¬ clean) : Handled s t i a c clean := by
  obtain ⟨lease, hl, hroute, hc⟩ := hu.lease h
  rcases h.reachable.owning.heldBy_step hl hc hevent with hheld | hparting
  · exact .inl ⟨⟨hattempt.trans hu.1, hpool ▸ hheld⟩, hnot⟩
  · rw [← hpool, hroute] at hparting
    exact handled_of_parting ht (hparting.congr (iff_of_false id hnot))

/-- While the response is read, the lease is past the check that the connection is ready. -/
theorem Uses.held (hu : s.Uses i a c) (h : s.InRun pool) (hi : s.calls[i]? = some call)
    {reading : Reading} (hstage : call.stage = .exchanging a reading) :
    ∃ lease k, s.pool.leases[a.lease]? = some lease ∧ lease.route = a.route ∧
      lease.phase = .held k ∧ k.conn = c := by
  obtain ⟨lease, hl, hroute, hc⟩ := hu.lease h
  obtain ⟨k, hk⟩ := h.linked.held i call a reading hi hstage
  rw [System.phase?_of_lease hl, Option.some.injEq] at hk
  refine ⟨lease, k, hl, hroute, hk, ?_⟩
  simpa [hk, Phase.conn?] using hc

/-- A connection that is given up is closed. -/
theorem Uses.parting_drop (hu : s.Uses i a c) (h : s.InRun pool) (hi : s.calls[i]? = some call)
    {reading : Reading} (hstage : call.stage = .exchanging a reading) {clean : Prop} (hnot : ¬ clean) :
    System.Parting s.pool (s.pool.step (.drop a.lease)) c a.route clean := by
  obtain ⟨lease, k, hl, hroute, hphase, rfl⟩ := hu.held h hi hstage
  have hparting := h.reachable.owning.parting_drop hl hphase
  rw [hroute] at hparting
  exact hparting.congr (iff_of_false id hnot)

/-- After a whole response the connection is handed back or given up, as the response asks. -/
theorem Uses.parting_handing (hu : s.Uses i a c) (h : s.InRun pool) (hi : s.calls[i]? = some call)
    {reading : Reading} (hstage : call.stage = .exchanging a reading) {head : ResponseHead}
    (hhead : reading.head = some head) :
    System.Parting s.pool (s.pool.step (s.handing a ⟨head, reading.body⟩)) c a.route
      (s.EndsCleanly i c (.event (.arrive i .finished))) := by
  have hreading := (head?_of_exchanging hi hstage).trans hhead
  have hread (hclean : s.EndsCleanly i c (.event (.arrive i .finished))) :
      ¬ head.header.CarriesClose := by
    obtain ⟨head', hhead', hclose⟩ := hclean.read
    obtain rfl : head = head' := Option.some.inj (hreading.symm.trans hhead')
    exact hclose
  unfold handing
  split
  case isTrue hwants =>
    exact hu.parting_drop h hi hstage fun hclean => hread hclean (Header.wantsClose_iff.1 hwants)
  case isFalse hnot =>
    obtain ⟨lease, k, hl, hroute, hphase, rfl⟩ := hu.held h hi hstage
    have hparting := h.reachable.owning.parting_release hl hphase
      (s.settings.keepAlive.duration head.header)
    rw [hroute] at hparting
    refine hparting.congr ⟨fun hkept => ?_, fun hclean => ⟨hclean.isOpen, hclean.live⟩⟩
    have hclose : ¬ head.header.CarriesClose := fun hcarries => hnot (Header.wantsClose_iff.2 hcarries)
    exact ⟨rfl, ⟨head, hreading, hclose⟩, hkept.2, hkept.1⟩

/-- A lease that holds a connection has come out well or not yet, so its attempt does not end with it. -/
theorem leaseOutcome_of_conn {route : Route} {phase : Phase} (hc : phase.conn? = some c)
    (error : ClientError) : leaseOutcome? route phase ≠ some (.error error) := by
  cases phase with
  | readying | held => nofun
  | claiming | connecting | parked | ended => cases hc

/-- The connection is dealt with at the end of the attempt that uses it. -/
theorem Uses.parting_settle (hu : s.Uses i a c) (h : s.InRun pool) (hends : s.Ends x e)
    (hcall : e.call = i) :
    System.Parting s.pool (s.settle e).pool c a.route (s.EndsCleanly i c x) := by
  subst hcall
  obtain rfl : a = e.attempt := Option.some.inj (hu.1.symm.trans hends.attempt?_eq)
  cases hends with
  | noLease hi hstage houtcome =>
    -- an attempt whose lease has failed uses no connection
    obtain ⟨lease, hl, -, hc⟩ := hu.lease h
    rw [System.phase?_of_lease hl, Option.bind_some] at houtcome
    exact absurd houtcome (leaseOutcome_of_conn hc _)
  | answered hi hstage hhead => exact hu.parting_handing h hi hstage hhead
  | broken hi hstage fault =>
    exact hu.parting_drop h hi hstage fun hclean => by cases hclean.finished
  | late hi hstage hlate =>
    exact hu.parting_drop h hi hstage fun hclean => by cases hclean.finished

/-- A call that is cancelled gives up its connection, whether it is ready or not. -/
theorem Uses.parting_cancel (hu : s.Uses i a c) (h : s.InRun pool) {clean : Prop} (hnot : ¬ clean) :
    System.Parting s.pool ((s.pool.step (.cancel a.lease)).step (.drop a.lease)) c a.route clean := by
  obtain ⟨lease, hl, hroute, hc⟩ := hu.lease h
  have hown := h.reachable.owning
  have hclosed (hparting : System.Parting s.pool
      ((s.pool.step (.cancel a.lease)).step (.drop a.lease)) c lease.route False) :
      System.Parting s.pool ((s.pool.step (.cancel a.lease)).step (.drop a.lease)) c a.route clean :=
    hroute ▸ hparting.congr (iff_of_false id hnot)
  cases hphase : lease.phase with
  | readying k =>
    -- the lease is cancelled, and there is nothing left to give up
    obtain ⟨hparting, hcancelled⟩ := hown.parting_cancel hl hphase
    have hsame : (s.pool.step (.cancel a.lease)).step (.drop a.lease) =
        s.pool.step (.cancel a.lease) := by
      simp [System.step_of_lease (e := .drop a.lease) rfl hcancelled, System.stepLease]
    obtain rfl : k.conn = c := by simpa [hphase, Phase.conn?] using hc
    exact hclosed (by rwa [hsame])
  | held k =>
    have hsame : s.pool.step (.cancel a.lease) = s.pool := by
      simp [System.step_of_lease (e := .cancel a.lease) rfl hl, System.stepLease, System.cancel,
        hphase]
    obtain rfl : k.conn = c := by simpa [hphase, Phase.conn?] using hc
    refine hclosed ?_
    rw [hsame]
    exact hown.parting_drop hl hphase
  | claiming | connecting | parked | ended =>
    rw [hphase] at hc
    cases hc

/-- The end of another attempt leaves the connection in use. -/
theorem Uses.settle_other (hu : s.Uses i a c) (h : s.InRun pool) (hends : s.Ends x e)
    (hne : i ≠ e.call) : (s.settle e).pool.HeldBy c a.lease := by
  have hyields := hends.yields
  unfold settle
  cases hhandling : e.handling with
  | none => exact hu.2
  | some handling =>
    refine System.heldBy_step_other hu.2 ?_
    rw [Event.lease?_of_yields (hyields handling hhandling)]
    exact h.linked.lease_ne hu.1 hends.attempt?_eq hne

/-- Each happening leaves a connection with the attempt that uses it, or parts the two. -/
theorem InRun.uses_happen (h : s.InRun pool) (hu : s.Uses i a c) (x : Happening) :
    Handled s (s.happen x) i a c (s.EndsCleanly i c x) := by
  have ht := h.happen x
  have hturn := h.turn_happen x
  obtain ⟨call, hi, ha⟩ := attempt?_eq_some.1 hu.1
  generalize s.happen x = t at ht hturn
  -- the two part when the attempt ends or is cancelled, or when the connection was not ready
  cases hturn with
  | outside hnone hp owned =>
    have hnot := not_endsCleanly_of_none (i := i) (c := c) hnone
    cases hp with
    | stay => exact .inl ⟨hu, hnot⟩
    | event event hfree => exact hu.handled_step h ht rfl rfl (yields_ne_of_free hfree hu.1) hnot
    | shutdown =>
      have hyields : Event.yields? .shutdown ≠ some a.lease := (Option.some_ne_none _).symm
      exact hu.handled_step h ht rfl rfl hyields hnot
    | aside other =>
      obtain ⟨lease, hl, -, hc⟩ := hu.lease h
      exact .inl ⟨⟨hu.1, System.heldBy_aside hl hc other⟩, hnot⟩
  | reject hnone =>
    exact .inl ⟨⟨(attempt?_push hi _).trans hu.1, hu.2⟩, not_endsCleanly_of_none hnone⟩
  | accept hnone =>
    refine .inl ⟨⟨?_, ?_⟩, not_endsCleanly_of_none hnone⟩
    · exact (attempt?_push (s := s.inPool _) hi _).trans hu.1
    · exact System.heldBy_step_other hu.2 (Option.some_ne_none _).symm
  | @exchange hnone k was b hk hstage reading =>
    refine .inl ⟨⟨?_, hu.2⟩, not_endsCleanly_of_none hnone⟩
    by_cases hik : i = k
    · subst hik
      obtain rfl : call = was := Option.some.inj (hi.symm.trans hk)
      obtain rfl : a = b := Option.some.inj (ha.symm.trans (attempt_of_exchange hstage))
      rw [attempt?_of_call (getElem?_setStage_self hi _), Stage.attempt?]
    · rw [attempt?_setStage_ne hik, hu.1]
  | @finish e he result hverdict =>
    have hends := ends_of_ending he
    by_cases hie : e.call = i
    · exact handled_of_parting ht (hu.parting_settle h hends hie)
    · have hne : i ≠ e.call := fun heq => hie heq.symm
      refine .inl ⟨⟨?_, hu.settle_other h hends hne⟩, not_endsCleanly_of_ne he hne⟩
      rw [attempt?_setStage_ne hne, attempt?_settle, hu.1]
  | @retry e he hverdict =>
    have hends := ends_of_ending he
    by_cases hie : e.call = i
    · refine handled_of_parting ht ((hu.parting_settle h hends hie).trans_books ?_ rfl)
      rw [pool_setStage, pool_inPool]
      exact System.reaches_step _ _
    · have hne : i ≠ e.call := fun heq => hie heq.symm
      refine .inl ⟨⟨?_, ?_⟩, not_endsCleanly_of_ne he hne⟩
      · rw [attempt?_setStage_ne hne, attempt?_inPool, attempt?_settle, hu.1]
      · exact System.heldBy_step_other (hu.settle_other h hends hne)
          (Option.some_ne_none _).symm
  | @cancel hnone k was b hk hb =>
    have hnot := not_endsCleanly_of_none (i := i) (c := c) hnone
    by_cases hik : i = k
    · subst hik
      obtain rfl : a = b := Option.some.inj (hu.1.symm.trans ((attempt?_of_call hk).trans hb))
      exact handled_of_parting ht (hu.parting_cancel h hnot)
    · have hother : some b.lease ≠ some a.lease :=
        h.linked.lease_ne hu.1 ((attempt?_of_call hk).trans hb) hik
      refine .inl ⟨⟨?_, ?_⟩, hnot⟩
      · rw [attempt?_setStage_ne hik, attempt?_inPool, attempt?_inPool, hu.1]
      · have hcancelled := System.heldBy_step_other (e := .cancel b.lease) hu.2 hother
        exact System.heldBy_step_other (e := .drop b.lease) hcancelled hother

/-! ## Runs -/

/-- A connection has one user. -/
theorem InRun.uses_unique (h : s.InRun pool) (hu : s.Uses i a c) (hv : s.Uses j b c) :
    j = i ∧ b = a := by
  have hlease : a.lease = b.lease := h.reachable.owning.heldBy_unique hu.2 hv.2
  obtain rfl : i = j := h.linked.distinct i j a b hu.1 hv.1 hlease
  exact ⟨rfl, Option.some.inj (hv.1.symm.trans hu.1)⟩

/-- A connection that is gone is not used any more. -/
theorem not_uses_of_gone {p : System} (hgone : p.Gone c) (hreaches : System.Reaches p s.pool) :
    ¬ s.Uses j b c := by
  intro hu
  have hnone := System.owns_eq_false_iff.1 (hgone s.pool hreaches)
  have hpos := System.holders_pos_iff.2 ⟨b.lease, hu.2⟩
  simp only [System.places] at hnone
  omega

/-- Another attempt can use the connection only after a clean end of the one that uses it now. -/
theorem InRun.uses_later (h : s.InRun pool) (hu : s.Uses i a c) (ys : List Happening)
    (hv : (s.after ys).Uses j b c) : (j = i ∧ b = a) ∨ ∃ us x vs, ys = us ++ x :: vs ∧
      (s.after us).Uses i a c ∧ (s.after us).EndsCleanly i c x := by
  induction ys generalizing s with
  | nil => exact .inl (h.uses_unique hu hv)
  | cons x ys ih =>
    have ht := h.happen x
    rcases h.uses_happen hu x with ⟨hstill, -⟩ | ⟨-, hparting⟩
    · rcases ih ht hstill hv with hsame | ⟨us, y, vs, rfl, hused, hclean⟩
      · exact .inl hsame
      · exact .inr ⟨x :: us, y, vs, rfl, hused, hclean⟩
    · -- they have parted: unless that was clean, the connection is gone
      by_cases hclean : s.EndsCleanly i c x
      · exact .inr ⟨[], x, ys, rfl, hu, hclean⟩
      · exact absurd hv (not_uses_of_gone (hparting.gone hclean) (ht.reaches ys))

/-- In any run of a pool with any clients, let an attempt use a connection. Then the connection is not
idle. With each happening, either the attempt goes on using it, or from then on nobody uses it, a
place is free again in the pool and on the route, and the connection is idle if the attempt has just
read the whole response, no readable `Connection` line of the response holds `close`, the connection is
open, and the pool is not shut down; in all other cases it is gone for good. And when any other attempt
uses the connection later, it has become idle in this way before. -/
theorem only_clean_connections_pooled (settings : Settings) (pool : PoolSettings)
    (xs : List Happening) {i : CallId} {a : Attempt} {c : ConnId}
    (hu : ((init settings pool).after xs).Uses i a c) :
    let s := (init settings pool).after xs
    (∀ route k, ¬ s.pool.IdleAt c route k) ∧
      (∀ x, Handled s (s.happen x) i a c (s.EndsCleanly i c x)) ∧
      ∀ ys j b, (s.after ys).Uses j b c → (j = i ∧ b = a) ∨ ∃ us x vs, ys = us ++ x :: vs ∧
        (s.after us).Uses i a c ∧ (s.after us).EndsCleanly i c x := by
  intro s
  have hrun : s.InRun pool := (inRun_init settings pool).after xs
  exact ⟨hrun.reachable.owning.not_idle_of_held hu.2, hrun.uses_happen hu,
    fun ys j b hv => hrun.uses_later hu ys hv⟩

/-- A connection goes back to the pool after a `Connection` line that holds `close` next to a character
beyond ASCII: such a line cannot be read. -/
theorem unreadable_close_is_pooled :
    let route : Route := ⟨.http, ['h'], 80⟩
    let attempt : Attempt := ⟨route, 1, 0⟩
    let request : Request :=
      ⟨.get, ⟨some ['h', 't', 't', 'p'], some ['h'], ['/'], none⟩, .http11, ⟨[]⟩, []⟩
    let value : Text := ['é', ',', ' ', 'c', 'l', 'o', 's', 'e']
    let head : ResponseHead := ⟨200, ⟨[("connection".toList, value)]⟩⟩
    let s := (init ⟨⟨true, none, none, none⟩, ⟨1⟩, .standard⟩ ⟨1, 1, .standard⟩).after
      [.event (.submit request), .event (.pool (.claim 0 [])), .event (.pool (.connected 0)),
        .event (.proceed 0), .event (.arrive 0 (.head head))]
    s.Uses 0 attempt 0 ∧ s.head? 0 = some head ∧
      (∃ line ∈ head.header.getAll "connection".toList, line.HoldsClose) ∧
      (s.happen (.event (.arrive 0 .finished))).pool.IdleAt 0 route 0 := by
  intro route attempt request value head s
  have hclose : value.HoldsClose := ⟨[' ', 'c', 'l', 'o', 's', 'e'], by decide, by decide⟩
  have hline : value ∈ head.header.getAll "connection".toList := by decide
  refine ⟨⟨by decide, by rw [System.HeldBy]; decide⟩, by decide, ⟨value, hline, hclose⟩, ?_⟩
  rw [System.IdleAt]
  decide

/-- A call is cancelled in the middle of a response: its connection is gone. -/
theorem only_clean_connections_pooled_cancelled :
    let request : Request :=
      ⟨.get, ⟨some ['h', 't', 't', 'p'], some ['h'], ['/'], none⟩, .http11, ⟨[]⟩, []⟩
    let s := (init ⟨⟨true, none, none, none⟩, ⟨1⟩, .standard⟩ ⟨1, 1, .standard⟩).after
      [.event (.submit request), .event (.pool (.claim 0 [])), .event (.pool (.connected 0)),
        .event (.proceed 0), .event (.arrive 0 (.head ⟨200, ⟨[]⟩⟩))]
    s.Uses 0 ⟨⟨.http, ['h'], 80⟩, 1, 0⟩ 0 ∧ (s.happen (.event (.cancel 0))).pool.Gone 0 := by
  intro request s
  have hu : s.Uses 0 ⟨⟨.http, ['h'], 80⟩, 1, 0⟩ 0 := ⟨by decide, by rw [System.HeldBy]; decide⟩
  refine ⟨hu, ?_⟩
  obtain ⟨-, hhandled, -⟩ := only_clean_connections_pooled _ _ _ hu
  rcases hhandled (.event (.cancel 0)) with ⟨hstill, -⟩ | ⟨-, hparting⟩
  · exact absurd hstill.1 (by decide)
  · exact hparting.gone fun hclean => by cases hclean.finished

end Client.Service
end PooledHttp
