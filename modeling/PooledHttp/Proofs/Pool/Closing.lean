import PooledHttp.Proofs.Pool.Phases
import PooledHttp.Proofs.Pool.Wakeup

/-!
# A pool that has been shut down

After the shutdown a pool only gets emptier. No connection is idle, because the shutdown has closed
those that were and none is parked any more (`System.Drained`). No lease gets a place, so the leases
that occupy one are among those that did so at the shutdown, and their number never rises
(`System.Waning`). A lease that waits is at most three steps away from learning that the pool is
closed (`Phase.Leaving`): nothing but its deadline takes it off this way, and each step is possible
when it is the next one.
-/

set_option autoImplicit false

namespace PooledHttp.Pool

/-- A lease in a closed pool that is over after at most so many steps: it is woken, it leaves the
waiting room, and it finds the pool closed. -/
inductive Phase.Leaving : Nat → Phase → Prop
  | closed (n : Nat) : Leaving n (.ended .poolClosed)
  | cancelled (n : Nat) : Leaving n (.ended .cancelled)
  | claiming (n : Nat) : Leaving (n + 1) .claiming
  | woken (n : Nat) : Leaving (n + 2) (.parked true)
  | parked (n : Nat) : Leaving (n + 3) (.parked false)

/-- A lease that is leaving a closed pool goes on doing so, unless it expires before it is woken. -/
theorem Phase.Onward.leaving {expires : Bool} {p q : Phase} {n : Nat} (h : p.Onward true expires q)
    (hp : p.Leaving n) (hexpires : expires = true → n ≤ 2) : q.Leaving n := by
  cases h with
  | stay => exact hp
  | refuse => exact .closed n
  | take h | connect h | park h => cases h
  | ready | unready | connected | refused => cases hp
  | wake =>
    cases hp with
    | woken n => exact .woken n
    | parked n => exact .woken (n + 1)
  | resume =>
    cases hp with
    | woken n => exact .claiming (n + 1)
  | expire h =>
    cases hp with
    | parked n => exact absurd (hexpires h) (by omega)

/-- A lease that is near its end may be taken to be further away from it. -/
theorem Phase.Leaving.succ {n : Nat} {p : Phase} (h : p.Leaving n) : p.Leaving (n + 1) := by
  cases h with
  | closed => exact .closed _
  | cancelled => exact .cancelled _
  | claiming n => exact .claiming (n + 1)
  | woken n => exact .woken (n + 1)
  | parked n => exact .parked (n + 1)

/-- Which step is the next one. -/
theorem Phase.Leaving.of_succ {n : Nat} {p : Phase} (h : p.Leaving (n + 1)) (hn : n ≤ 2) :
    p.Leaving n ∨ (n = 0 ∧ p = .claiming) ∨ (n = 1 ∧ p = .parked true) ∨
      (n = 2 ∧ p = .parked false) := by
  cases h with
  | closed => exact .inl (.closed n)
  | cancelled => exact .inl (.cancelled n)
  | claiming =>
    cases n with
    | zero => exact .inr (.inl ⟨rfl, rfl⟩)
    | succ n => exact .inl (.claiming n)
  | woken n =>
    cases n with
    | zero => exact .inr (.inr (.inl ⟨rfl, rfl⟩))
    | succ n => exact .inl (.woken n)
  | parked n =>
    obtain rfl : n = 0 := by omega
    exact .inr (.inr (.inr ⟨rfl, rfl⟩))

/-- Where a lease that is never parked can stand when the pool is shut down before it has claimed a
place. -/
def Phase.isRefused : Phase → Bool
  | .claiming | .ended .poolClosed => true
  | _ => false

/-- A lease that a closed pool refuses stays refused. -/
theorem Phase.Onward.isRefused {expires : Bool} {p q : Phase} (h : p.Onward true expires q)
    (hp : p.isRefused = true) : q.isRefused = true := by
  cases h with
  | stay => exact hp
  | refuse => rfl
  | take h | connect h | park h => cases h
  | ready | unready | connected | refused | wake | resume | expire => cases hp

namespace System

variable {s t u : System} {l m : LeaseId} {lease : Lease}

/-! ## No connection is idle -/

/-- Once the pool is shut down, no connection is idle. -/
def Drained (s : System) : Prop :=
  s.books.closed = true → ∀ route, (s.books.account route).idle = []

/-- A new pool is not shut down. -/
theorem drained_init (settings : PoolSettings) : (init settings).Drained := fun _ _ => rfl

/-- Only the shutdown changes whether the pool is closed. -/
theorem Effect.closed_or_shutdown (he : Effect s t) (hacc : s.Accounted) :
    t.books.closed = s.books.closed ∨ t.books = s.books.shutdown := by
  have hbooks := hacc.balanced
  cases he with
  | none | start | quit | leave | wakeAll | wakeOne | close | clock | reorder => exact .inl rfl
  | take hl hphase hclaim =>
    obtain ⟨mid, hmid, rfl, -⟩ := State.claim_reuse hbooks hclaim
    exact .inl ((State.closed_modify ..).trans hmid.closed)
  | connect hl hphase hclaim =>
    obtain ⟨mid, hmid, rfl, -⟩ := State.claim_connect hbooks hclaim
    exact .inl ((State.closed_modify ..).trans hmid.closed)
  | park hl hphase hopen hclaim =>
    obtain ⟨hswept, -⟩ := State.claim_wait hbooks hclaim
    exact .inl ((State.closed_modify ..).trans hswept.closed)
  | ready | connected => exact .inl (State.closed_modify ..)
  | vacate => exact .inl (State.closed_finishLease ..)
  | evict live keep => exact .inl (State.Swept.evict hbooks live keep).closed
  | shutdown => exact .inr rfl

/-- A pool that is shut down is never opened again. -/
theorem Effect.closed (he : Effect s t) (hacc : s.Accounted) (h : s.books.closed = true) :
    t.books.closed = true := by
  rcases he.closed_or_shutdown hacc with hsame | hshutdown
  · exact hsame.trans h
  · rw [hshutdown]
    rfl

/-- Every effect keeps a closed pool without idle connections. -/
theorem Drained.effect (h : s.Drained) (hacc : s.Accounted) (he : Effect s t) : t.Drained := by
  have hbooks := hacc.balanced
  intro hclosed route
  rcases he.closed_or_shutdown hacc with hsame | hshutdown
  case inr => rw [hshutdown, State.account_shutdown]
  have hwas : s.books.closed = true := hsame.symm.trans hclosed
  have hnone := h hwas route
  cases he with
  | none | start | quit | wakeAll | wakeOne | close | clock => exact hnone
  | take _ _ _ _ hopen | connect _ _ _ _ hopen | park _ _ hopen | shutdown hopen =>
    rw [hopen] at hwas
    cases hwas
  | ready => rwa [books_ready, State.account_countReused]
  | connected => rwa [books_connected, State.account_countCreated]
  | vacate =>
    rw [books_setPhase, books_finish, State.account_finishLease _ _ _ hbooks.keyed]
    split
    case isTrue hroute =>
      subst hroute
      simp [hnone, State.kept_of_closed hwas]
    case isFalse => exact hnone
  | leave => rwa [books_leave, State.idle_removePending _ hbooks.keyed]
  | evict live keep => exact List.sublist_nil.1 (hnone ▸ (State.Swept.evict hbooks live keep).idle route)
  | reorder hperm => rwa [State.account_reorder hbooks.keyed hperm]

/-- In every state of a run, a pool that is shut down has no idle connections. -/
theorem Reachable.drained {settings : PoolSettings} (h : Reachable settings s) : s.Drained :=
  h.induction_accounted (drained_init settings) fun _ _ hacc he hs => hs.effect hacc he

/-- In a pool that is shut down, the total of idle connections is zero and every list is empty. -/
theorem Reachable.noneIdle {settings : PoolSettings} (h : Reachable settings s)
    (hclosed : s.books.closed = true) :
    s.books.idleTotal = 0 ∧ ∀ e ∈ s.books.routes, e.2.idle = [] := by
  have hbooks := h.accounted.balanced
  have hnone (e : Route × RoutePool) (he : e ∈ s.books.routes) : e.2.idle = [] := by
    have hidle := h.drained hclosed e.1
    rwa [State.account_of_mem hbooks.keyed he] at hidle
  refine ⟨?_, hnone⟩
  rw [hbooks.idle, State.total, State.sumOver_eq_zero_iff]
  exact fun e he => List.length_eq_zero_iff.2 (hnone e he)

/-! ## No lease gets a place -/

/-- `t` comes after `s`, in which the pool is shut down. -/
structure Waning (s t : System) : Prop where
  closed : t.books.closed = true
  leasedTotal_le : t.books.leasedTotal ≤ s.books.leasedTotal
  hasPlace : ∀ l phase, t.phase? l = some phase → phase.hasPlace = true →
    ∃ before, s.phase? l = some before ∧ before.hasPlace = true

/-- A pool that is shut down comes after itself. -/
theorem Waning.refl (h : s.books.closed = true) : Waning s s :=
  ⟨h, Nat.le_refl _, fun _ phase hphase hplace => ⟨phase, hphase, hplace⟩⟩

/-- What comes after a pool that is shut down is followed by what comes after that. -/
theorem Waning.trans (h : Waning s t) (h' : Waning t u) : Waning s u where
  closed := h'.closed
  leasedTotal_le := h'.leasedTotal_le.trans h.leasedTotal_le
  hasPlace l phase hphase hplace := by
    obtain ⟨before, hbefore, hplace⟩ := h'.hasPlace l phase hphase hplace
    exact h.hasPlace l before hbefore hplace

/-- Every effect makes a closed pool emptier, or leaves it as it is. -/
theorem Effect.waning (he : Effect s t) (hacc : s.Accounted) (hclosed : s.books.closed = true) :
    Waning s t := by
  refine ⟨he.closed hacc hclosed, ?_, fun l phase hphase hplace => ?_⟩
  · cases he with
    | none | start | quit | leave | wakeAll | wakeOne | close | clock | reorder => exact Nat.le_refl _
    | take _ _ _ _ hopen | connect _ _ _ _ hopen | park _ _ hopen | shutdown hopen =>
      rw [hopen] at hclosed
      cases hclosed
    | ready | connected => exact (State.leasedTotal_modify ..).le
    | vacate => exact (State.leasedTotal_finishLease ..).trans_le (Nat.sub_le _ _)
    | evict live keep => exact (State.Swept.evict hacc.balanced live keep).leasedTotal.le
  · cases he with
    | none | close | clock | evict | shutdown | reorder => exact ⟨phase, hphase, hplace⟩
    | take _ _ _ _ hopen | connect _ _ _ _ hopen | park _ _ hopen =>
      rw [hopen] at hclosed
      cases hclosed
    | start route deadline =>
      -- the lease that has just been started is claiming
      obtain ⟨lease, hl, rfl⟩ := Option.map_eq_some_iff.1 hphase
      by_cases hold : l < s.leases.length
      · rw [List.getElem?_append_left hold] at hl
        exact ⟨lease.phase, phase?_of_lease hl, hplace⟩
      · rw [List.getElem?_append_right (Nat.le_of_not_lt hold)] at hl
        rw [List.mem_singleton.1 (List.mem_of_getElem? hl)] at hplace
        cases hplace
    | quit hl hwas how =>
      rcases phase?_of_setPhase rfl hphase with ⟨-, rfl⟩ | hsame
      · cases hplace
      · exact ⟨phase, hsame, hplace⟩
    | ready hl hwas | connected hl hwas =>
      rcases phase?_of_setPhase rfl hphase with ⟨rfl, -⟩ | hsame
      · exact ⟨_, phase?_of_lease hl, by rw [hwas]; rfl⟩
      · exact ⟨phase, hsame, hplace⟩
    | vacate hl _ _ _ hnext | leave hl _ hnext =>
      rcases phase?_of_setPhase rfl hphase with ⟨-, rfl⟩ | hsame
      · rw [Phase.hasPlace_of_isOutside hnext] at hplace
        cases hplace
      · exact ⟨phase, hsame, hplace⟩
    | wakeOne hl hparked =>
      rcases phase?_of_setPhase rfl hphase with ⟨-, rfl⟩ | hsame
      · cases hplace
      · exact ⟨phase, hsame, hplace⟩
    | wakeAll owed owedByRemovals =>
      simp only [phase?, List.getElem?_map, Option.map_map, Option.map_eq_some_iff] at hphase
      obtain ⟨lease, hl, rfl⟩ := hphase
      exact ⟨lease.phase, phase?_of_lease hl, by rwa [Function.comp_apply, hasPlace_wake] at hplace⟩

/-- What comes after the shutdown in a run. -/
theorem Reachable.waning {settings : PoolSettings} (h : Reachable settings s)
    (hclosed : s.books.closed = true) (hst : Reaches s t) : Waning s t := by
  induction hst with
  | refl => exact .refl hclosed
  | tail hprev hlast ih =>
    have hacc : System.Accounted _ := Reachable.accounted (h.trans hprev)
    exact ih.trans (hlast.effect.waning hacc ih.closed)

/-! ## What a lease can still come to -/

/-- No event takes a lease off its way to the end, except that it may expire before it is woken. -/
theorem step_leaving (hclosed : s.books.closed = true) (hl : s.leases[l]? = some lease) {n : Nat}
    (hleaving : lease.phase.Leaving n) {e : Event} (he : e = .expire l → n ≤ 2) :
    ∃ next, (s.step e).leases[l]? = some { lease with phase := next } ∧ next.Leaving n := by
  by_cases hyields : e.yields? = some l
  · rw [step_of_lease (Event.lease?_of_yields hyields) hl]
    have hsame : ∃ next, s.leases[l]? = some { lease with phase := next } ∧ next.Leaving n :=
      ⟨lease.phase, hl, hleaving⟩
    cases e with
    | cancel =>
      show ∃ next, (s.cancel l lease).leases[l]? = _ ∧ _
      unfold cancel
      split
      case h_1 | h_2 => exact ⟨_, getElem?_setPhase (s := { s with books := _ }) hl _, .cancelled n⟩
      case h_3 c h =>
        rw [h] at hleaving
        cases hleaving
      case h_4 h =>
        rw [h] at hleaving
        cases hleaving
      case h_5 | h_6 => exact hsame
    | release | drop =>
      simp only [stepLease]
      split
      case h_1 h hheld =>
        rw [hheld] at hleaving
        cases hleaving
      case h_2 => exact hsame
    | start | claim | ready | unready | connected | refused | broadcast | broadcastRemoval | resume
    | expire | closed | tick | closeExpired | closeIdle | shutdown => cases hyields
  · obtain ⟨next, hnext, honward⟩ := step_onward hl hyields
    rw [hclosed] at honward
    exact ⟨next, hnext, honward.leaving hleaving fun h => he (of_decide_eq_true h)⟩

/-- Nor does an aside, except that the lease may stop waiting although it has been woken. -/
theorem aside_leaving (hclosed : s.books.closed = true) (hl : s.leases[l]? = some lease) {n : Nat}
    (hleaving : lease.phase.Leaving n) {a : Aside} (ha : a = .expireWoken l → n ≤ 1) :
    ∃ next, (s.aside a).leases[l]? = some { lease with phase := next } ∧ next.Leaving n := by
  obtain ⟨next, hnext, honward | ⟨hexpire, hparked⟩⟩ := aside_onward hl a
  · rw [hclosed] at honward
    exact ⟨next, hnext, honward.leaving hleaving nofun⟩
  · have hn := ha hexpire
    rw [hparked] at hleaving
    cases hleaving with
    | woken n => omega

/-- A lease that has not claimed a place yet and that nobody gives up learns that the pool is closed. -/
theorem Reachable.isRefused {settings : PoolSettings} (h : Reachable settings s)
    (hclosed : s.books.closed = true) (hspares : Spares l s t) {p : Phase}
    (hp : s.phase? l = some p) (hrefused : p.isRefused = true) :
    ∃ q, t.phase? l = some q ∧ q.isRefused = true := by
  obtain ⟨lease, hl, rfl⟩ := Option.map_eq_some_iff.1 hp
  suffices hall : Reaches s t ∧ ∃ lease, t.leases[l]? = some lease ∧ lease.phase.isRefused = true by
    obtain ⟨-, lease, hl, hstill⟩ := hall
    exact ⟨lease.phase, phase?_of_lease hl, hstill⟩
  induction hspares with
  | refl => exact ⟨.refl, lease, hl, hrefused⟩
  | tail _ hlast ih =>
    obtain ⟨hreaches, before, hbefore, hwas⟩ := ih
    have hstill := (h.waning hclosed hreaches).closed
    rcases hlast with ⟨e, he, rfl⟩ | ⟨a, rfl⟩
    · obtain ⟨next, hnext, honward⟩ := step_onward hbefore he
      rw [hstill] at honward
      exact ⟨hreaches.trans (reaches_step _ e), _, hnext, honward.isRefused hwas⟩
    · obtain ⟨next, hnext, honward | ⟨-, hparked⟩⟩ := aside_onward hbefore a
      · rw [hstill] at honward
        exact ⟨hreaches.trans (reaches_aside _ a), _, hnext, honward.isRefused hwas⟩
      · rw [hparked] at hwas
        cases hwas

/-! ## The last steps of a lease -/

/-- A claim finds out that the pool is closed. -/
theorem claim_of_closed (hclosed : s.books.closed = true) (hphase : s.phase? l = some .claiming)
    (failing : List ConnId) : s.step (.claim l failing) = s.setPhase l (.ended .poolClosed) := by
  obtain ⟨lease, hl, hclaiming⟩ := Option.map_eq_some_iff.1 hphase
  simp [step_of_lease (e := .claim l failing) rfl hl, stepLease, hclaiming, claim, hclosed]

/-- A parked lease that has been woken claims again. -/
theorem phase?_resume (hphase : s.phase? l = some (.parked true)) :
    (s.step (.resume l)).phase? l = some .claiming := by
  obtain ⟨lease, hl, hparked⟩ := Option.map_eq_some_iff.1 hphase
  have hstep : s.step (.resume l) = s.leave l lease .claiming := by
    simp [step_of_lease (e := .resume l) rfl hl, stepLease, hparked]
  rw [hstep]
  exact phase?_of_lease (getElem?_setPhase (s := { s with books := _ }) hl _)

/-- A broadcast that is owed wakes a parked lease. -/
theorem phase?_broadcast (howed : s.owed ≠ 0) (hphase : s.phase? l = some (.parked false)) :
    (s.step .broadcast).phase? l = some (.parked true) := by
  obtain ⟨lease, hl, hparked⟩ := Option.map_eq_some_iff.1 hphase
  simp [step, howed, phase?, hl, wake, hparked]

/-- In a closed pool, a broadcast is owed to every lease that is parked. -/
theorem Reachable.owed_of_parked {settings : PoolSettings} (h : Reachable settings s)
    (hclosed : s.books.closed = true) (hphase : s.phase? l = some (.parked false)) : 0 < s.owed := by
  obtain ⟨lease, hl, hparked⟩ := Option.map_eq_some_iff.1 hphase
  refine Nat.pos_of_ne_zero fun hquiet => ?_
  obtain ⟨hopen, -⟩ := h.noneForgotten hquiet lease (List.mem_of_getElem? hl) hparked
  rw [hclosed] at hopen
  cases hopen

/-- The event that brings a lease from `n + 1` steps before its end to `n` steps. -/
def stepTo (l : LeaseId) (failing : List ConnId) : Nat → Event
  | 0 => .claim l failing
  | 1 => .resume l
  | _ => .broadcast

/-- The next step of a leaving lease takes it one step closer to its end. -/
theorem Reachable.stepTo_leaving {settings : PoolSettings} (h : Reachable settings s)
    (hclosed : s.books.closed = true) {p : Phase} (hphase : s.phase? l = some p) {n : Nat}
    (hleaving : p.Leaving (n + 1)) (hn : n ≤ 2) (failing : List ConnId) :
    ∃ q, (s.step (stepTo l failing n)).phase? l = some q ∧ q.Leaving n := by
  rcases hleaving.of_succ hn with hstill | ⟨rfl, rfl⟩ | ⟨rfl, rfl⟩ | ⟨rfl, rfl⟩
  · obtain ⟨lease, hl, rfl⟩ := Option.map_eq_some_iff.1 hphase
    obtain ⟨next, hnext, hleaving⟩ :=
      step_leaving hclosed hl hstill (e := stepTo l failing n) fun _ => hn
    exact ⟨next, phase?_of_lease hnext, hleaving⟩
  · obtain ⟨lease, hl, -⟩ := Option.map_eq_some_iff.1 hphase
    refine ⟨.ended .poolClosed, ?_, .closed 0⟩
    rw [stepTo, claim_of_closed hclosed hphase]
    exact phase?_of_lease (getElem?_setPhase hl _)
  · exact ⟨.claiming, phase?_resume hphase, .claiming 0⟩
  · exact ⟨.parked true, phase?_broadcast (h.owed_of_parked hclosed hphase).ne' hphase, .woken 0⟩

end System
end PooledHttp.Pool
