import PooledHttp.Proofs.Pool.Clock
import PooledHttp.Proofs.Pool.Wakeup

/-!
# Deadlines of leases

A lease gets its deadline when it starts and keeps it, however often it is woken and has to wait
again. It fails with a timeout only when it is parked, has not been woken, and finds its deadline
passed (`System.Due`). At that moment a cap keeps its route from getting one more lease, or a lease
has left the books and has not made its broadcast yet (`System.Full`).

A lease that finds its deadline passed leaves at once, by its own event, or it leaves a little later,
because leaving takes the lock of the books. In between, other leases may end and make their
broadcasts. Then the lease leaves with a timeout although it counts as woken, and nothing holds of
the caps any more (`System.timedOut_below_caps`). So it is asked of such a lease that it has been due
since it was parked last (`System.Timely`), and what is said of the caps is about the moment at which
it was due (`System.TimesOut`). As for time, nothing is asked but that the clock is moved by ticks
alone, which do not pass the deadline of a parked lease.
-/

set_option autoImplicit false

namespace PooledHttp.Pool

/-- Only a parked lease whose deadline is at hand times out. -/
theorem Phase.Onward.of_timedOut {closed expires : Bool} {p : Phase}
    (h : p.Onward closed expires (.ended .timedOut)) :
    p = .ended .timedOut ∨ expires = true ∧ p = .parked false := by
  cases h with
  | stay => exact .inl rfl
  | expire h => exact .inr ⟨h, rfl⟩

namespace System

variable {s t : System} {l : LeaseId} {lease : Lease} {deadline : Millis} {acts : List Act}

/-- The lease is parked and has not been woken, and its deadline has passed. -/
def Due (s : System) (l : LeaseId) : Prop :=
  ∃ lease, s.leases[l]? = some lease ∧ lease.phase = .parked false ∧
    ∃ deadline, lease.deadline = some deadline ∧ deadline ≤ s.now

/-- The lease is parked now and after each of the acts. -/
def WaitsThrough (s : System) (l : LeaseId) : List Act → Prop
  | [] => (s.phase? l).any Phase.isParked = true
  | a :: acts => (s.phase? l).any Phase.isParked = true ∧ (s.act a).WaitsThrough l acts

/-- Whether a lease waits through a series of acts can be computed. -/
instance decidableWaitsThrough (l : LeaseId) :
    (s : System) → (acts : List Act) → Decidable (s.WaitsThrough l acts)
  | s, [] => inferInstanceAs (Decidable ((s.phase? l).any Phase.isParked = true))
  | s, a :: acts =>
    have := decidableWaitsThrough l (s.act a) acts
    inferInstanceAs (Decidable ((s.phase? l).any Phase.isParked = true ∧ _))

/-- At some moment during the acts the lease was due, and it has not left the waiting room since. -/
def HasStopped (s : System) (l : LeaseId) (acts : List Act) : Prop :=
  ∃ pre post, acts = pre ++ post ∧ (s.play pre).Due l ∧ (s.play pre).WaitsThrough l post

/-- The clock is moved by ticks alone, and if the lease leaves with a timeout although it has been
woken, it has stopped waiting before. -/
structure Timely (s : System) (l : LeaseId) (acts : List Act) : Prop where
  clock : ∀ time, .aside (.clock time) ∉ acts
  stopped : ∀ done rest, acts = done ++ .aside (.expireWoken l) :: rest → s.HasStopped l done

/-- The route has as many leases as its cap allows, or all routes together have as many as theirs, or
a lease that has ended owes its broadcast. -/
def Full (s : System) (route : Route) : Prop :=
  (s.books.get route).leased = s.settings.maxPerRoute ∨ s.books.leasedTotal = s.settings.maxTotal ∨
    s.EndOwed

/-- Whether the pool is full for a route can be computed. -/
instance (s : System) (route : Route) : Decidable (s.Full route) :=
  inferInstanceAs (Decidable (_ ∨ _ ∨ (if s.books.closed then 1 else 0) < s.owed))

/-- The act after those that are done is the one by which the lease times out. -/
def LeavesBy (s : System) (l : LeaseId) (done : List Act) (a : Act) : Prop :=
  (s.play done).phase? l ≠ some (.ended .timedOut) ∧
    ((s.play done).act a).phase? l = some (.ended .timedOut)

/-- How a lease times out by an act, after the acts that are done. -/
inductive TimesOut (s : System) (l : LeaseId) (route : Route) (done : List Act) : Act → Prop
  /-- It finds its deadline passed and leaves in the same step. A cap is reached before this step and
  after it. -/
  | atOnce (hdue : (s.play done).Due l) (hfull : (s.play done).Full route)
    (hafter : ((s.play done).act (.event (.expire l))).Full route) :
    TimesOut s l route done (.event (.expire l))
  /-- It has found its deadline passed at a moment at which a cap was reached, and has been woken
  before it leaves. -/
  | late (pre post : List Act) (hsplit : done = pre ++ post) (hdue : (s.play pre).Due l)
    (hwaits : (s.play pre).WaitsThrough l post) (hfull : (s.play pre).Full route) :
    TimesOut s l route done (.aside (.expireWoken l))

/-- What is asked of a lease with this route and deadline while the acts happen. -/
structure HonoursDeadline (s : System) (l : LeaseId) (route : Route) (deadline : Millis)
    (acts : List Act) : Prop where
  /-- The deadline does not change, in particular not when the lease is parked again. -/
  same : ∀ done rest, acts = done ++ rest →
    ∃ phase, (s.play done).leases[l]? = some ⟨route, some deadline, phase⟩
  /-- The lease does not time out before its deadline. -/
  late : ∀ done rest, acts = done ++ rest → (s.play done).phase? l = some (.ended .timedOut) →
    deadline ≤ (s.play done).now
  /-- While the lease is parked, the clock does not go beyond the deadline, or does not move at all
  if the lease was parked later than that. -/
  bound : ∀ done wait rest, acts = done ++ wait ++ rest → (s.play done).WaitsThrough l wait →
    (s.play (done ++ wait)).now ≤ max deadline (s.play done).now
  /-- When the lease finds its deadline passed, its route has as many leases as its cap allows, or
  all routes together have as many as theirs, or a lease that has ended owes its broadcast. -/
  full : ∀ done a rest, acts = done ++ a :: rest → s.LeavesBy l done a → s.TimesOut l route done a
  /-- When the lease times out, it no longer counts as pending. -/
  counted : ∀ done a rest, acts = done ++ a :: rest → s.LeavesBy l done a →
    (((s.play done).act a).books.get route).pending + 1 = ((s.play done).books.get route).pending

/-! ## One act -/

/-- Whatever happens, a lease keeps its route and its deadline. -/
theorem exists_phase_act (hl : s.leases[l]? = some lease) (a : Act) :
    ∃ next, (s.act a).leases[l]? = some { lease with phase := next } := by
  cases a with
  | event e =>
    show ∃ next, (s.step e).leases[l]? = _
    by_cases he : e.lease? = some l
    · obtain ⟨next, hnext, -⟩ := stepLease_onward hl he
      refine ⟨next, ?_⟩
      rw [step_of_lease he hl, hnext, getElem?_setPhase hl]
    · rcases step_other hl he with hsame | hwoken
      · exact ⟨lease.phase, hsame⟩
      · obtain ⟨-, heq⟩ := onward_wake false false lease
        exact ⟨_, heq ▸ hwoken⟩
  | aside a =>
    obtain ⟨next, hnext, -⟩ := aside_onward hl a
    exact ⟨next, hnext⟩

/-- A lease that is given up or hands its connection back does not time out. -/
theorem not_timedOut_of_yields (hl : s.leases[l]? = some lease)
    (hnot : s.phase? l ≠ some (.ended .timedOut)) {e : Event} (he : e.yields? = some l) :
    (s.step e).phase? l ≠ some (.ended .timedOut) := by
  have hother {t : System} {next : Phase} (hleases : t.leases = (s.setPhase l next).leases)
      (hnext : next ≠ .ended .timedOut) : t.phase? l ≠ some (.ended .timedOut) := by
    intro h
    rcases phase?_of_setPhase hleases h with ⟨-, heq⟩ | hbefore
    · exact hnext heq.symm
    · exact hnot hbefore
  rw [step_of_lease (Event.lease?_of_yields he) hl]
  cases e with
  | cancel =>
    show (s.cancel l lease).phase? l ≠ _
    unfold System.cancel
    split
    case h_1 | h_2 | h_3 | h_4 => exact hother rfl (by simp)
    case h_5 | h_6 => exact hnot
  | release | drop =>
    simp only [stepLease]
    split
    case h_1 => exact hother rfl (by simp)
    case h_2 => exact hnot
  | start | claim | ready | unready | connected | refused | broadcast | broadcastRemoval | resume
  | expire | closed | tick | closeExpired | closeIdle | shutdown => cases he

/-- A lease that an event wakes or leaves alone does not time out. -/
theorem not_timedOut_of_wake (hl : s.leases[l]? = some lease)
    (hnot : s.phase? l ≠ some (.ended .timedOut))
    (ht : t.leases[l]? = some lease ∨ t.leases[l]? = some (wake lease)) :
    t.phase? l ≠ some (.ended .timedOut) := by
  rw [phase?_of_lease hl] at hnot
  rcases ht with hsame | hwoken
  · rwa [phase?_of_lease hsame]
  · rw [phase?_of_lease hwoken]
    intro h
    obtain ⟨honward, -⟩ := onward_wake false false lease
    rw [Option.some.inj h] at honward
    rcases honward.of_timedOut with hbefore | ⟨hnever, -⟩
    · exact hnot (congrArg some hbefore)
    · cases hnever

/-- A lease that times out leaves the waiting room: it is due now, or it has stopped waiting before.
-/
theorem timedOut_of_act (hl : s.leases[l]? = some lease) {a : Act}
    (hnot : s.phase? l ≠ some (.ended .timedOut))
    (h : (s.act a).phase? l = some (.ended .timedOut)) :
    lease.phase.isParked = true ∧ s.act a = s.leave l lease (.ended .timedOut) ∧
      (a = .event (.expire l) ∧ s.Due l ∨ a = .aside (.expireWoken l)) := by
  cases a with
  | event e =>
    by_cases he : e.lease? = some l
    · -- a lease that is given up does not time out, so the lease goes on by itself
      have hkept : e.yields? = none := by
        refine Option.eq_none_iff_forall_ne_some.2 fun m hyields => ?_
        have hm := (Event.lease?_of_yields hyields).symm.trans he
        obtain rfl := Option.some.inj hm
        exact not_timedOut_of_yields hl hnot hyields h
      obtain ⟨next, hnext, honward⟩ := stepLease_onward hl he
      have hstep := step_of_lease he hl
      have hafter : (s.stepLease l lease e).phase? l = some (.ended .timedOut) := hstep ▸ h
      have hphase : next = .ended .timedOut := by
        rw [phase?, hnext, getElem?_setPhase hl] at hafter
        exact Option.some.inj hafter
      rcases (hphase ▸ honward hkept).of_timedOut with hbefore | ⟨hexpires, hparked⟩
      · exact absurd ((phase?_of_lease hl).trans (congrArg some hbefore)) hnot
      · obtain rfl : e = .expire l := of_decide_eq_true hexpires
        rw [stepLease] at hstep hafter
        split at hafter
        case isFalse => exact absurd hafter hnot
        case isTrue hdue =>
          rw [if_pos hdue] at hstep
          simp only [Bool.and_eq_true, decide_eq_true_eq, Option.any_eq_true] at hdue
          obtain ⟨-, deadline, hdeadline, hle⟩ := hdue
          have hwaits : lease.phase.isParked = true := by rw [hparked]; rfl
          exact ⟨hwaits, hstep, .inl ⟨rfl, lease, hl, hparked, deadline, hdeadline, hle⟩⟩
    · exact absurd h (not_timedOut_of_wake hl hnot (step_other hl he))
  | aside a =>
    rcases aside_cases hl a with hsame | hwoken | ⟨rfl, hparked, -⟩
    · exact absurd h (not_timedOut_of_wake hl hnot (.inl hsame))
    · exact absurd h (not_timedOut_of_wake hl hnot (.inr hwoken))
    · have hact : s.act (.aside (.expireWoken l)) =
          if lease.phase = .parked true ∧ lease.deadline.isSome = true then
            s.leave l lease (.ended .timedOut)
          else s := by
        simp only [act, aside, hl]
      rw [hact] at h ⊢
      split at h
      case isFalse => exact absurd h hnot
      case isTrue hleaves =>
        rw [if_pos hleaves]
        exact ⟨by rw [hparked]; rfl, rfl, .inr rfl⟩

/-- When a parked lease leaves, one lease fewer counts as pending on its route. -/
theorem Accounted.pending_leave (h : s.Accounted) (hl : s.leases[l]? = some lease)
    (hparked : lease.phase.isParked = true) (next : Phase) :
    ((s.leave l lease next).books.get lease.route).pending + 1 =
      (s.books.get lease.route).pending := by
  have hpos := h.pending_pos hl hparked
  have haccount := State.account_removePending lease.route h.balanced.keyed lease.route
  rw [if_pos rfl] at haccount
  have hfewer := congrArg Account.pending haccount
  simp only [State.account, RoutePool.account] at hfewer hpos
  rw [books_leave]
  omega

/-- Where a lease is due, a cap is reached or the end of a lease owes its broadcast. -/
theorem Reachable.full_of_due {settings : PoolSettings} (h : Reachable settings s)
    (hl : s.leases[l]? = some lease) (hdue : s.Due l) : s.Full lease.route := by
  obtain ⟨same, hsame, hparked, -⟩ := hdue
  obtain rfl : lease = same := Option.some.inj (hl.symm.trans hsame)
  have hroute := h.capped.route lease.route
  have htotal := h.capped.total
  obtain ⟨-, hcap⟩ := h.attended lease (List.mem_of_getElem? hl) hparked
  rw [AtCap] at hcap
  simp only [State.account, RoutePool.account] at hroute hcap
  rcases hcap with (hfull | hfull) | hend
  · exact .inl (by omega)
  · exact .inr (.inl (by omega))
  · exact .inr (.inr hend)

/-- A parked lease that leaves changes no number of leases. -/
theorem Full.leave (h : s.Full lease.route) (hacc : s.Accounted) (l : LeaseId) (next : Phase) :
    (s.leave l lease next).Full lease.route := by
  have hleased :=
    State.leased_removePending lease.route hacc.balanced.keyed lease.route
  simp only [State.account, RoutePool.account] at hleased
  refine h.imp (fun hroute => ?_) (Or.imp (fun htotal => htotal) fun hend => hend)
  rw [books_leave, hleased]
  exact hroute

/-! ## Runs -/

/-- A lease keeps its route and its deadline through a run and changes its phase at most. -/
theorem exists_phase_play (hl : s.leases[l]? = some lease) (acts : List Act) :
    ∃ next, (s.play acts).leases[l]? = some { lease with phase := next } := by
  induction acts generalizing s lease with
  | nil => exact ⟨lease.phase, hl⟩
  | cons a acts ih =>
    obtain ⟨phase, hphase⟩ := exists_phase_act hl a
    obtain ⟨next, hnext⟩ := ih hphase
    exact ⟨next, hnext⟩

/-- But for asides that set it, the clock keeps time. -/
theorem keepsTime_act {a : Act} (ha : ∀ time, a ≠ .aside (.clock time)) :
    KeepsTime s (s.act a) := by
  cases a with
  | event e => exact keepsTime_step s e
  | aside a =>
    refine .inl (now_aside ?_)
    rintro time rfl
    exact ha time rfl

/-- But for asides that set it, the clock does not go back in a run. -/
theorem now_le_play (hclock : ∀ time, .aside (.clock time) ∉ acts) : s.now ≤ (s.play acts).now := by
  induction acts generalizing s with
  | nil => exact le_rfl
  | cons a acts ih =>
    have hfirst : s.now ≤ (s.act a).now :=
      (keepsTime_act fun time ha => hclock time (ha ▸ List.mem_cons_self)).le
    exact hfirst.trans (ih fun time hmem => hclock time (.tail a hmem))

/-- While a lease is parked, the clock does not go beyond its deadline. -/
theorem now_play_le (hl : s.leases[l]? = some lease) (hdeadline : lease.deadline = some deadline)
    (hwaits : s.WaitsThrough l acts) (hclock : ∀ time, .aside (.clock time) ∉ acts) :
    (s.play acts).now ≤ max deadline s.now := by
  induction acts generalizing s lease with
  | nil => exact le_max_right _ _
  | cons a acts ih =>
    obtain ⟨hparked, hwaits⟩ := hwaits
    rw [phase?_of_lease hl, Option.any_some] at hparked
    have htime : KeepsTime s (s.act a) :=
      keepsTime_act fun time ha => hclock time (ha ▸ List.mem_cons_self)
    have hfirst : (s.act a).now ≤ max deadline s.now := by
      rcases htime with hstill | ⟨-, hpasses⟩
      · rw [hstill]
        exact le_max_right _ _
      · exact (le_deadline_of_mayPass hpasses hl hparked hdeadline).trans (le_max_left _ _)
    obtain ⟨phase, hphase⟩ := exists_phase_act hl a
    have hrest := ih hphase hdeadline hwaits fun time hmem => hclock time (.tail a hmem)
    exact hrest.trans (max_le (le_max_left _ _) hfirst)

/-- A lease that is due after the acts has stopped waiting, at this very moment. -/
theorem Due.hasStopped {done : List Act} (h : (s.play done).Due l) : s.HasStopped l done := by
  refine ⟨done, [], (List.append_nil done).symm, h, ?_⟩
  obtain ⟨lease, hl, hparked, -⟩ := h
  rw [WaitsThrough, phase?_of_lease hl, Option.any_some, hparked]
  rfl

/-- A lease that times out finds its deadline passed in this step, or has found it passed before. -/
theorem Timely.of_leavesBy (h : s.Timely l acts) (hl : s.leases[l]? = some lease)
    {done rest : List Act} {a : Act} (hacts : acts = done ++ a :: rest)
    (hleaves : s.LeavesBy l done a) :
    a = .event (.expire l) ∧ (s.play done).Due l ∨
      a = .aside (.expireWoken l) ∧ s.HasStopped l done := by
  obtain ⟨phase, hphase⟩ := exists_phase_play hl done
  obtain ⟨-, -, hnow | rfl⟩ := timedOut_of_act hphase hleaves.1 hleaves.2
  · exact .inl hnow
  · exact .inr ⟨rfl, h.stopped done rest hacts⟩

/-- A lease that times out was due when it stopped waiting, and then a cap was reached. -/
theorem Timely.timesOut {settings : PoolSettings} (h : s.Timely l acts)
    (hreachable : Reachable settings s) (hl : s.leases[l]? = some lease)
    {done rest : List Act} {a : Act} (hacts : acts = done ++ a :: rest)
    (hleaves : s.LeavesBy l done a) : s.TimesOut l lease.route done a := by
  have hat (part : List Act) : Reachable settings (s.play part) :=
    Relation.ReflTransGen.trans hreachable (reaches_play s part)
  have hfull {part : List Act} (hdue : (s.play part).Due l) : (s.play part).Full lease.route := by
    obtain ⟨phase, hphase⟩ := exists_phase_play hl part
    have hroute := (hat part).full_of_due hphase hdue
    exact hroute
  rcases h.of_leavesBy hl hacts hleaves with ⟨rfl, hdue⟩ | ⟨rfl, pre, post, hsplit, hdue, hwaits⟩
  · obtain ⟨phase, hphase⟩ := exists_phase_play hl done
    obtain ⟨-, hact, -⟩ := timedOut_of_act hphase hleaves.1 hleaves.2
    have hafter : ((s.play done).act (.event (.expire l))).Full lease.route :=
      hact ▸ (hfull hdue).leave (hat done).accounted l _
    exact .atOnce hdue (hfull hdue) hafter
  · exact .late pre post hsplit hdue hwaits (hfull hdue)

/-- A lease does not time out before its deadline. -/
theorem Timely.late (h : s.Timely l acts) (hl : s.leases[l]? = some lease)
    (hdeadline : lease.deadline = some deadline) (hphase : lease.phase ≠ .ended .timedOut)
    {done rest : List Act} (hacts : acts = done ++ rest)
    (hends : (s.play done).phase? l = some (.ended .timedOut)) : deadline ≤ (s.play done).now := by
  induction done using List.reverseRecOn generalizing rest with
  | nil =>
    rw [play, List.foldl_nil, phase?_of_lease hl] at hends
    exact absurd (Option.some.inj hends) hphase
  | append_singleton done a ih =>
    rw [List.append_assoc, List.singleton_append] at hacts
    have hclock {part : List Act} (hpart : part ⊆ acts) (time : Millis) :
        .aside (.clock time) ∉ part := fun hmem => h.clock time (hpart hmem)
    rw [play_concat] at hends ⊢
    have hstep : (s.play done).now ≤ ((s.play done).act a).now := by
      apply KeepsTime.le
      apply keepsTime_act
      rintro time rfl
      exact h.clock time (by simp [hacts])
    by_cases hbefore : (s.play done).phase? l = some (.ended .timedOut)
    · exact (ih hacts hbefore).trans hstep
    · -- the lease has stopped waiting at a moment when it was due, and time has gone on since
      have hstopped : s.HasStopped l done := by
        rcases h.of_leavesBy hl hacts ⟨hbefore, hends⟩ with ⟨-, hdue⟩ | ⟨-, hearlier⟩
        · exact hdue.hasStopped
        · exact hearlier
      obtain ⟨pre, post, hsplit, ⟨due, hdue, -, time, htime, hle⟩, -⟩ := hstopped
      obtain ⟨next, hnext⟩ := exists_phase_play hl pre
      obtain rfl := Option.some.inj (hnext.symm.trans hdue)
      obtain rfl : deadline = time := Option.some.inj (hdeadline.symm.trans htime)
      have hsince : (s.play pre).now ≤ (s.play done).now := by
        rw [hsplit, play_append]
        exact now_le_play (hclock (by rw [hacts, hsplit]; simp))
      exact hle.trans (hsince.trans hstep)

/-- Let a lease start with a limit on its wait in any state of any run, and let anything happen
afterwards that does not move the clock but by ticks. However often the lease is parked and woken,
its deadline is the limit after its start: it does not time out earlier, the clock does not pass the
deadline while it is parked, and when it finds its deadline passed a cap keeps its route from getting
another lease, unless one has just ended. Once it has left, it counts as pending no more. -/
theorem deadline_honoured {settings : PoolSettings} (h : Reachable settings s) (route : Route)
    (limit : Millis) (hacts : (s.step (.start route (some limit))).Timely s.leases.length acts) :
    (s.step (.start route (some limit))).HonoursDeadline s.leases.length route (s.now + limit)
      acts := by
  have hl := getElem?_start (s := s) route (some limit)
  have hreachable : Reachable settings (s.step (.start route (some limit))) :=
    h.tail (.event s _)
  generalize s.step (.start route (some limit)) = t at hacts hl hreachable
  generalize s.leases.length = l at hacts hl
  have hat (done : List Act) : Reachable settings (t.play done) :=
    Relation.ReflTransGen.trans hreachable (reaches_play t done)
  refine ⟨?_, ?_, ?_, ?_, ?_⟩
  · intro done rest _
    exact exists_phase_play hl done
  · intro done rest hsplit hends
    exact hacts.late hl rfl nofun hsplit hends
  · intro done wait rest hsplit hwaits
    obtain ⟨phase, hphase⟩ := exists_phase_play hl done
    rw [play_append]
    apply now_play_le hphase rfl hwaits
    intro time hmem
    exact hacts.clock time (by simp [hsplit, hmem])
  · intro done a rest hsplit hleaves
    exact hacts.timesOut hreachable hl hsplit hleaves
  · intro done a rest hsplit hleaves
    obtain ⟨phase, hphase⟩ := exists_phase_play hl done
    obtain ⟨hparked, hact, -⟩ := timedOut_of_act hphase hleaves.1 hleaves.2
    rw [hact]
    exact (hat done).accounted.pending_leave hphase hparked _

/-- An act that has not been done before stands last where a list of acts ends with it. -/
theorem eq_of_concat_eq_append_cons {a : Act} {done before rest : List Act} (ha : a ∉ done)
    (h : done ++ [a] = before ++ a :: rest) : done = before := by
  rcases List.append_eq_append_iff.1 h with ⟨more, hbefore, hlast⟩ | ⟨more, hdone, hlast⟩
  · cases more with
    | nil => simpa using hbefore.symm
    | cons b more =>
      have hlength := congrArg List.length hlast
      simp at hlength
  · cases more with
    | nil => simpa using hdone
    | cons b more =>
      obtain ⟨rfl, -⟩ := List.cons.inj hlast
      exact absurd (by simp [hdone]) ha

/-- The only place is taken, and a second lease waits for ten milliseconds. When they are over, it finds
its deadline passed; but before it has left, the first lease gives up its connection and makes its
broadcast. When the second lease leaves, all places are free and no broadcast is owed. -/
theorem timedOut_below_caps :
    let settings : PoolSettings := ⟨1, 1, .standard⟩
    let route : Route := ⟨.http, ['h'], 80⟩
    let s := (init settings).run [.start route none, .claim 0 [], .connected 0]
    let t := s.step (.start route (some 10))
    let done : List Act :=
      [.event (.claim 1 []), .event (.tick 10), .event (.drop 0), .event .broadcast]
    let acts := done ++ [.aside (.expireWoken 1)]
    Reachable settings s ∧ t.Timely 1 acts ∧ t.LeavesBy 1 done (.aside (.expireWoken 1)) ∧
      ((t.play acts).books.get route).leased = 0 ∧ (t.play acts).books.leasedTotal = 0 ∧
      (t.play acts).owed = 0 ∧ ¬ (t.play acts).Full route := by
  intro settings route s t done acts
  have htimely : t.Timely 1 acts := by
    refine ⟨by simp [acts, done], ?_⟩
    intro before rest hsplit
    obtain rfl : done = before := eq_of_concat_eq_append_cons (by simp [done]) hsplit
    -- the lease was due after the first two acts
    refine ⟨done.take 2, done.drop 2, rfl, ⟨⟨route, some 10, .parked false⟩, ?_, rfl, 10, rfl, ?_⟩, ?_⟩
    · decide
    · decide
    · decide
  exact ⟨reaches_run _ _, htimely, ⟨by decide, by decide⟩, by decide, by decide, by decide, by decide⟩

/-- The only place is taken at time 3, when a second lease starts to wait for at most 7. The
connection is handed back and closed; a third lease gets the place before the second is woken, which
waits again and times out at 10. -/
theorem deadline_honoured_parked_twice :
    let route : Route := ⟨.http, ['h'], 80⟩
    let s := (init ⟨1, 1, .standard⟩).run
      [.start route none, .claim 0 [], .connected 0, .tick 3]
    let acts : List Act := [Event.claim 1 [], .release 0 0, .closed 0, .start route none,
      .claim 2 [], .broadcast, .resume 1, .claim 1 [], .tick 7, .expire 1].map .event
    let t := s.step (.start route (some 7))
    t.Timely 1 acts ∧ t.HonoursDeadline 1 route 10 acts ∧
      (t.play (acts.take 5)).phase? 1 = some (.parked false) ∧
      (t.play (acts.take 8)).phase? 1 = some (.parked false) ∧
      (t.play acts).phase? 1 = some (.ended .timedOut) ∧ (t.play acts).now = 10 ∧
      ((t.play acts).books.get route).leased = 1 ∧ ((t.play acts).books.get route).pending = 0 := by
  intro route s acts t
  have hevents : ∀ a, Act.aside a ∉ acts := by simp [acts]
  have htimely : t.Timely 1 acts := by
    refine ⟨fun time => hevents _, ?_⟩
    intro done rest hsplit
    exact absurd (hsplit ▸ by simp) (hevents (.expireWoken 1))
  exact ⟨htimely, deadline_honoured (reaches_run _ _) route 7 htimely, by decide, by decide,
    by decide, by decide, by decide, by decide⟩

end System
end PooledHttp.Pool
