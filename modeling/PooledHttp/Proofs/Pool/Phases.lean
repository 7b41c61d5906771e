import PooledHttp.Proofs.Pool.Moves

/-!
# The life of a lease

An event is about one lease at most, and what it does to the phase of a lease depends on the lease
alone and on whether the pool is shut down. `Phase.Onward` lists how a lease goes on as long as nobody
gives it up or hands its connection back. `System.step_onward` says that there are no other ways, and
`System.aside_onward` says what else can happen to it; the events that yield a lease have statements
of their own.

What is left open in a run besides the events (`System.Move`) is described here as data, by
`System.aside`, so that the runs of those who use a pool can be lists of what happens.
-/

set_option autoImplicit false

namespace PooledHttp.Pool

/-- How a lease goes on that nobody gives up: `closed` says whether the pool is shut down, `expires`
whether the deadline of the lease is at hand. -/
inductive Phase.Onward (closed expires : Bool) : Phase → Phase → Prop
  | stay (p : Phase) : Onward closed expires p p
  | refuse (h : closed = true) : Onward closed expires .claiming (.ended .poolClosed)
  | take (h : closed = false) (c : IdleConnection) : Onward closed expires .claiming (.readying c)
  | connect (h : closed = false) : Onward closed expires .claiming .connecting
  | park (h : closed = false) : Onward closed expires .claiming (.parked false)
  | ready (c : IdleConnection) :
    Onward closed expires (.readying c) (.held ⟨c.conn, c.createdAt, c.useCount + 1, true⟩)
  | unready (c : IdleConnection) : Onward closed expires (.readying c) .claiming
  | connected (h : Held) : Onward closed expires .connecting (.held h)
  | refused (e : TransportError) : Onward closed expires .connecting (.ended (.refused e))
  | wake (woken : Bool) : Onward closed expires (.parked woken) (.parked true)
  | resume : Onward closed expires (.parked true) .claiming
  | expire (h : expires = true) : Onward closed expires (.parked false) (.ended .timedOut)

/-- A lease that holds a connection goes on holding it. -/
theorem Phase.Onward.of_held {closed expires : Bool} {h : Held} {q : Phase}
    (honward : (Phase.held h).Onward closed expires q) : q = .held h := by
  cases honward
  rfl

/-- The lease that an event gives up, or whose connection it hands back. -/
def Event.yields? : Event → Option LeaseId
  | .cancel l | .release l _ | .drop l => some l
  | _ => none

/-- An event by which a lease is given up is one of that lease. -/
theorem Event.lease?_of_yields {e : Event} {l : LeaseId} (h : e.yields? = some l) :
    e.lease? = some l := by
  cases e <;> cases h <;> rfl

/-- What happens in a run besides the events, as `System.Move` lists it. -/
inductive Aside where
  | clock (time : Millis)
  | reorder (routes : List (Route × RoutePool))
  | evict (live : ConnId → Bool) (keep : IdleConnection → Bool)
  | wakeEarly (lease : LeaseId)
  | expireWoken (lease : LeaseId)

namespace System

/-- What an aside does. One that is not possible leaves the state as it is. -/
def aside (s : System) : Aside → System
  | .clock time => { s with now := time }
  | .reorder routes =>
    if s.books.routes.Perm routes then { s with books := { s.books with routes := routes } } else s
  | .evict live keep =>
    { s with books := (s.books.evict live keep).2, owedByRemovals := s.owedByRemovals + 1 }
  | .wakeEarly l => if s.phase? l = some (.parked false) then s.setPhase l (.parked true) else s
  | .expireWoken l => match s.leases[l]? with
    | some lease =>
      if lease.phase = .parked true ∧ lease.deadline.isSome then s.leave l lease (.ended .timedOut)
      else s
    | none => s

variable {s t : System} {l m : LeaseId} {lease : Lease}

/-- An event is a move. -/
theorem reaches_step (s : System) (e : Event) : Reaches s (s.step e) := .single (.event s e)

/-- An aside is a move or none. -/
theorem reaches_aside (s : System) (a : Aside) : Reaches s (s.aside a) := by
  cases a with
  | clock time => exact .single (.clock s time)
  | reorder routes =>
    simp only [aside]
    split
    case isTrue h => exact .single (.reorder s routes h)
    case isFalse => exact .refl
  | evict live keep => exact .single (.evict s live keep)
  | wakeEarly l =>
    simp only [aside]
    split
    case isTrue h => exact .single (.wakeEarly s l h)
    case isFalse => exact .refl
  | expireWoken l =>
    simp only [aside]
    split
    case h_1 lease hl =>
      split
      case isTrue h => exact .single (.expireWoken s l lease hl h.1 h.2)
      case isFalse => exact .refl
    case h_2 => exact .refl

/-! ## The lease that an event is about -/

/-- A lease whose phase is set is the same otherwise. -/
theorem getElem?_setPhase (hl : s.leases[l]? = some lease) (next : Phase) :
    (s.setPhase l next).leases[l]? = some { lease with phase := next } := by
  simp [setPhase, hl]

/-- Setting the phase of a lease leaves the others as they are. -/
theorem getElem?_setPhase_ne (h : l ≠ m) (next : Phase) :
    (s.setPhase m next).leases[l]? = s.leases[l]? := by
  simp [setPhase, Ne.symm h]

/-- The phase of a lease is that of its record. -/
theorem phase?_of_lease (hl : s.leases[l]? = some lease) : s.phase? l = some lease.phase := by
  simp [phase?, hl]

/-- Setting the phase that a lease is in changes no lease. -/
theorem leases_setPhase_self (hl : s.leases[l]? = some lease) :
    (s.setPhase l lease.phase).leases = s.leases := by
  apply List.ext_getElem?
  intro i
  by_cases hi : i = l
  · subst hi
    rw [getElem?_setPhase hl, hl]
  · exact getElem?_setPhase_ne hi lease.phase

/-- When one lease has changed its phase, the others are in their former phases. -/
theorem phase?_of_setPhase {next phase : Phase} (hleases : t.leases = (s.setPhase m next).leases)
    (h : t.phase? l = some phase) : l = m ∧ phase = next ∨ s.phase? l = some phase := by
  rw [phase?, hleases] at h
  by_cases hl : l = m
  · subst hl
    cases hlease : s.leases[l]? with
    | none => simp [setPhase, hlease] at h
    | some lease =>
      rw [getElem?_setPhase hlease] at h
      exact .inl ⟨rfl, by simpa using h.symm⟩
  · rw [getElem?_setPhase_ne hl] at h
    exact .inr h

/-- A claim moves its lease on. -/
theorem claim_onward (hphase : lease.phase = .claiming) (failing : List ConnId) (expires : Bool) :
    ∃ next, (s.claim l lease failing).leases = (s.setPhase l next).leases ∧
      lease.phase.Onward s.books.closed expires next := by
  obtain ⟨connections, -, hafter⟩ := foldl_closeConnection (s := s) failing
  rw [hphase]
  unfold claim
  split
  case isTrue hclosed => exact ⟨_, rfl, .refuse hclosed⟩
  case isFalse hclosed =>
    have hopen : s.books.closed = false := by simpa using hclosed
    simp only [hafter]
    split
    case h_1 c books hclaim => exact ⟨_, rfl, .take hopen c⟩
    case h_2 books hclaim => exact ⟨_, rfl, .connect hopen⟩
    case h_3 books hclaim => exact ⟨_, rfl, .park hopen⟩

/-- An event changes at most the phase of the lease that it is about; unless it yields the lease, the
lease goes on. -/
theorem stepLease_onward (hl : s.leases[l]? = some lease) {e : Event} (he : e.lease? = some l) :
    ∃ next, (s.stepLease l lease e).leases = (s.setPhase l next).leases ∧
      (e.yields? = none → lease.phase.Onward s.books.closed (e = .expire l) next) := by
  have hself : ∃ next, s.leases = (s.setPhase l next).leases ∧
      (e.yields? = none → lease.phase.Onward s.books.closed (e = .expire l) next) :=
    ⟨lease.phase, (leases_setPhase_self hl).symm, fun _ => .stay _⟩
  cases e with
  | claim _ failing =>
    simp only [stepLease]
    split
    case isTrue h =>
      obtain ⟨next, hnext, honward⟩ := claim_onward (l := l) h failing _
      exact ⟨next, hnext, fun _ => honward⟩
    case isFalse => exact hself
  | ready =>
    simp only [stepLease]
    split
    case h_1 c h => exact ⟨_, rfl, fun _ => h ▸ .ready c⟩
    case h_2 => exact hself
  | unready =>
    simp only [stepLease]
    split
    case h_1 c h => exact ⟨_, rfl, fun _ => h ▸ .unready c⟩
    case h_2 => exact hself
  | connected =>
    simp only [stepLease]
    split
    case isTrue h => exact ⟨_, rfl, fun _ => h ▸ .connected _⟩
    case isFalse => exact hself
  | refused _ error =>
    simp only [stepLease]
    split
    case isTrue h => exact ⟨_, rfl, fun _ => h ▸ .refused error⟩
    case isFalse => exact hself
  | resume =>
    simp only [stepLease]
    split
    case isTrue h => exact ⟨_, rfl, fun _ => h ▸ .resume⟩
    case isFalse => exact hself
  | expire m =>
    obtain rfl : m = l := Option.some.inj he
    rw [stepLease]
    split
    case isTrue h =>
      have hphase : lease.phase = .parked false := by
        simp only [Bool.and_eq_true, decide_eq_true_eq] at h
        exact h.1
      exact ⟨_, rfl, fun _ => hphase ▸ .expire (decide_eq_true rfl)⟩
    case isFalse => exact hself
  | cancel =>
    -- from here on the lease is given up, and nothing is said of where it goes
    show ∃ next, (s.cancel l lease).leases = _ ∧ _
    unfold System.cancel
    split
    case h_1 | h_2 | h_3 | h_4 =>
      exact ⟨_, rfl, fun hnone => absurd hnone (Option.some_ne_none _)⟩
    case h_5 | h_6 => exact hself
  | release | drop =>
    simp only [stepLease]
    split
    case h_1 => exact ⟨_, rfl, fun hnone => absurd hnone (Option.some_ne_none _)⟩
    case h_2 => exact hself
  | start | broadcast | broadcastRemoval | closed | tick | closeExpired | closeIdle | shutdown =>
    cases he

/-! ## All leases -/

/-- An event of a lease is what the lease does. -/
theorem step_of_lease {e : Event} (he : e.lease? = some l) (hl : s.leases[l]? = some lease) :
    s.step e = s.stepLease l lease e := by
  rw [step_lease he, hl, Option.elim_some]

/-- A lease that begins is added last, with its deadline counted from now. -/
theorem getElem?_start (route : Route) (limit : Option Millis) :
    (s.step (.start route limit)).leases[s.leases.length]? =
      some ⟨route, limit.map (s.now + ·), .claiming⟩ := by
  simp [step]

/-- An event of a lease starts no other lease. -/
theorem length_leases_step {e : Event} (he : e.lease? = some l) :
    (s.step e).leases.length = s.leases.length := by
  rw [step_lease he]
  cases hl : s.leases[l]? with
  | none => rfl
  | some lease =>
    obtain ⟨next, hnext, -⟩ := stepLease_onward hl he
    rw [Option.elim_some, hnext, setPhase, List.length_modify]

/-- An event that is not about a lease leaves it alone, or wakes it. -/
theorem step_other (hl : s.leases[l]? = some lease) {e : Event} (he : e.lease? ≠ some l) :
    (s.step e).leases[l]? = some lease ∨ (s.step e).leases[l]? = some (wake lease) := by
  cases hm : e.lease? with
  | some m =>
    rw [step_lease hm]
    cases hlm : s.leases[m]? with
    | none => exact .inl hl
    | some other =>
      obtain ⟨next, hnext, -⟩ := stepLease_onward hlm hm
      have hne : l ≠ m := by
        rintro rfl
        exact he hm
      refine .inl ?_
      simp only [Option.elim_some]
      rw [hnext, getElem?_setPhase_ne hne, hl]
  | none =>
    cases e with
    | start route limit =>
      refine .inl ?_
      simp only [step]
      rw [List.getElem?_append_left (List.getElem?_eq_some_iff.1 hl).1, hl]
    | broadcast | broadcastRemoval =>
      simp only [step]
      split
      · exact .inl hl
      · exact .inr (by simp [hl])
    | closed | closeExpired | closeIdle => exact .inl hl
    | tick | shutdown =>
      simp only [step]
      split <;> exact .inl hl
    | claim | ready | unready | connected | refused | resume | expire | cancel | release | drop =>
      cases hm

/-- A lease that is woken or left alone goes on. -/
theorem onward_wake (closed expires : Bool) (lease : Lease) :
    lease.phase.Onward closed expires (wake lease).phase ∧
      wake lease = { lease with phase := (wake lease).phase } := by
  unfold wake
  split
  case h_1 woken h => exact ⟨h ▸ .wake woken, rfl⟩
  case h_2 => exact ⟨.stay _, rfl⟩

/-- A lease that an event does not yield goes on, for the same route and with the same deadline. -/
theorem step_onward (hl : s.leases[l]? = some lease) {e : Event} (he : e.yields? ≠ some l) :
    ∃ next, (s.step e).leases[l]? = some { lease with phase := next } ∧
      lease.phase.Onward s.books.closed (e = .expire l) next := by
  by_cases hm : e.lease? = some l
  · obtain ⟨next, hnext, honward⟩ := stepLease_onward hl hm
    have hkept : e.yields? = none := by
      refine Option.eq_none_iff_forall_ne_some.2 fun m hyields => he ?_
      rw [hyields, ← Event.lease?_of_yields hyields, hm]
    refine ⟨next, ?_, honward hkept⟩
    rw [step_lease hm, hl, Option.elim_some, hnext, getElem?_setPhase hl]
  · rcases step_other hl hm with hsame | hwoken
    · exact ⟨lease.phase, hsame, .stay _⟩
    · obtain ⟨honward, heq⟩ := onward_wake s.books.closed (e = .expire l) lease
      exact ⟨_, heq ▸ hwoken, honward⟩

/-- An aside leaves a lease alone, wakes it, or lets it stop waiting although it has been woken. -/
theorem aside_cases (hl : s.leases[l]? = some lease) (a : Aside) :
    (s.aside a).leases[l]? = some lease ∨ (s.aside a).leases[l]? = some (wake lease) ∨
      a = .expireWoken l ∧ lease.phase = .parked true ∧
        (s.aside a).leases[l]? = some { lease with phase := .ended .timedOut } := by
  cases a with
  | clock | evict => exact .inl hl
  | reorder routes =>
    simp only [aside]
    split <;> exact .inl hl
  | wakeEarly m =>
    simp only [aside]
    split
    case isFalse => exact .inl hl
    case isTrue h =>
      by_cases hm : l = m
      · subst hm
        rw [phase?_of_lease hl, Option.some.injEq] at h
        refine .inr (.inl ?_)
        rw [getElem?_setPhase hl, wake, h]
      · exact .inl ((getElem?_setPhase_ne hm _).trans hl)
  | expireWoken m =>
    simp only [aside]
    split
    case h_2 => exact .inl hl
    case h_1 other hother =>
      split
      case isFalse => exact .inl hl
      case isTrue h =>
        by_cases hm : l = m
        · subst hm
          obtain rfl : lease = other := Option.some.inj (hl.symm.trans hother)
          exact .inr (.inr ⟨rfl, h.1, getElem?_setPhase (s := { s with books := _ }) hl _⟩)
        · exact .inl ((getElem?_setPhase_ne (s := { s with books := _ }) hm _).trans hl)

/-- By an aside a lease goes on as well, unless it stops waiting although it has been woken. -/
theorem aside_onward (hl : s.leases[l]? = some lease) (a : Aside) :
    ∃ next, (s.aside a).leases[l]? = some { lease with phase := next } ∧
      (lease.phase.Onward s.books.closed false next ∨
        a = .expireWoken l ∧ lease.phase = .parked true) := by
  rcases aside_cases hl a with hsame | hwoken | ⟨hexpire, hparked, hover⟩
  · exact ⟨lease.phase, hsame, .inl (.stay _)⟩
  · obtain ⟨honward, heq⟩ := onward_wake s.books.closed false lease
    exact ⟨_, heq ▸ hwoken, .inl honward⟩
  · exact ⟨_, hover, .inr ⟨hexpire, hparked⟩⟩

/-! ## Leases of others -/

/-- The pool goes on while nobody gives up the lease or hands its connection back. -/
def Spares (l : LeaseId) : System → System → Prop :=
  Relation.ReflTransGen fun s t => (∃ e, Event.yields? e ≠ some l ∧ t = s.step e) ∨ ∃ a, t = s.aside a

/-- An event by which the lease is not given up spares it. -/
theorem spares_step {e : Event} (he : e.yields? ≠ some l) : Spares l s (s.step e) :=
  .single (.inl ⟨e, he, rfl⟩)

/-- An aside spares every lease. -/
theorem spares_aside (a : Aside) : Spares l s (s.aside a) := .single (.inr ⟨a, rfl⟩)

/-- A lease that is spared is still there, for the same route, and holds what it held. -/
theorem Spares.keeps (h : Spares l s t) (hl : s.leases[l]? = some lease) :
    ∃ next, t.leases[l]? = some { lease with phase := next } ∧
      ∀ h, lease.phase = .held h → next = .held h := by
  induction h with
  | refl => exact ⟨lease.phase, hl, fun _ h => h⟩
  | tail _ hlast ih =>
    obtain ⟨mid, hmid, hheld⟩ := ih
    rcases hlast with ⟨e, he, rfl⟩ | ⟨a, rfl⟩
    · obtain ⟨next, hnext, honward⟩ := step_onward hmid he
      exact ⟨next, hnext, fun h hwas => (hheld h hwas ▸ honward).of_held⟩
    · obtain ⟨next, hnext, honward | ⟨-, hparked⟩⟩ := aside_onward hmid a
      · exact ⟨next, hnext, fun h hwas => (hheld h hwas ▸ honward).of_held⟩
      · exact ⟨next, hnext, fun h hwas => absurd ((hheld h hwas).symm.trans hparked) nofun⟩

end System
end PooledHttp.Pool
