import PooledHttp.Proofs.Pool.Caps

/-!
# No wakeup is lost

A lease decides to wait in one critical section and is woken in another, and in between other leases
end, fail, are given up or make room. What keeps a parked lease from being forgotten is that it was
parked because a cap was reached, that only the end of a lease lowers a leased count and only the
shutdown closes the pool, and that both owe a broadcast from that moment on. So the cap that a
parked lease waits for is still reached, or the end of a lease owes its broadcast
(`System.Attended`); whenever none is owed, the cap is reached and the pool is open
(`System.NoneForgotten`).

Removals of idle connections owe broadcasts too, but nobody depends on those: a parked lease is not
waiting for an idle connection to go, because the caps leave no idle connection where it waits.
-/

set_option autoImplicit false

namespace PooledHttp.Pool.System

variable {s t : System} {l : LeaseId} {lease : Lease}

/-- Whether a cap keeps the route from getting one more lease. -/
def AtCap (s : System) (route : Route) : Prop :=
  s.settings.maxPerRoute ≤ (s.books.account route).leased ∨
    s.settings.maxTotal ≤ s.books.leasedTotal

/-- More broadcasts are owed than the one of the shutdown: a lease has left the books and has not
made its broadcast yet. -/
def EndOwed (s : System) : Prop := (if s.books.closed then 1 else 0) < s.owed

/-- Whoever is parked and has not been woken waits for a cap that is reached or for a broadcast that
the end of a lease owes. In a pool that is shut down, some broadcast is owed to them. -/
def Attended (s : System) : Prop :=
  ∀ lease ∈ s.leases, lease.phase = .parked false →
    (s.books.closed = true → 0 < s.owed) ∧ (s.AtCap lease.route ∨ s.EndOwed)

/-- Unless a broadcast is owed, the pool is open and at a cap for every lease that is parked and has
not been woken. -/
def NoneForgotten (s : System) : Prop :=
  s.owed = 0 → ∀ lease ∈ s.leases, lease.phase = .parked false →
    s.books.closed = false ∧ s.AtCap lease.route

/-- In a new pool, nobody is parked. -/
theorem attended_init (settings : PoolSettings) : (init settings).Attended := by
  intro lease hlease
  cases hlease

/-- Where everyone parked is attended to, nobody is forgotten. -/
theorem Attended.noneForgotten (h : s.Attended) : s.NoneForgotten := by
  intro hquiet lease hlease hparked
  obtain ⟨hclosed, hcap⟩ := h lease hlease hparked
  have hopen : s.books.closed = false := by
    rw [Bool.eq_false_iff]
    intro hshut
    have howed := hclosed hshut
    omega
  refine ⟨hopen, hcap.resolve_right ?_⟩
  rw [EndOwed, hquiet]
  exact Nat.not_lt_zero _

/-- A lease whose phase has changed to one that is not `parked false` adds nobody who waits. -/
theorem parked_setPhase (hl : s.leases[l]? = some lease) {next : Phase}
    (hnext : next ≠ .parked false) :
    ∀ other ∈ (s.setPhase l next).leases, other.phase = .parked false → other ∈ s.leases := by
  intro other hother hparked
  rcases mem_setPhase hl hother with h | rfl
  · exact h
  · exact absurd hparked hnext

/-- The statement stays true while nobody new waits, the pool is not closed and no count of leases
falls. -/
theorem Attended.of_le (h : s.Attended) (howed : t.owed = s.owed)
    (hsettings : t.settings = s.settings)
    (hleases : ∀ other ∈ t.leases, other.phase = .parked false → other ∈ s.leases)
    (hclosed : t.books.closed = s.books.closed)
    (hleased : ∀ r, (s.books.account r).leased ≤ (t.books.account r).leased)
    (htotal : s.books.leasedTotal ≤ t.books.leasedTotal) : t.Attended := by
  intro other hother hparked
  obtain ⟨hshut, hcap⟩ := h other (hleases other hother hparked) hparked
  rw [AtCap, EndOwed, hsettings, hclosed, howed]
  refine ⟨hshut, hcap.imp_left fun hcap => ?_⟩
  exact hcap.imp (·.trans (hleased other.route)) (·.trans htotal)

/-- Whoever leaves the books owes a broadcast. -/
theorem Attended.finish (h : s.Attended) (howed : t.owed = s.owed + 1)
    (hleases : ∀ other ∈ t.leases, other.phase = .parked false → other ∈ s.leases)
    (hclosed : t.books.closed = s.books.closed) : t.Attended := by
  intro other hother hparked
  obtain ⟨hshut, -⟩ := h other (hleases other hother hparked) hparked
  refine ⟨fun _ => by omega, .inr ?_⟩
  rw [EndOwed, hclosed, howed]
  split
  case isTrue hdown => exact Nat.succ_lt_succ (hshut hdown)
  case isFalse => exact Nat.succ_pos _

/-- A lease that gets a place on swept books lowers no count of leases. -/
theorem Attended.enter (h : s.Attended) (hl : s.leases[l]? = some lease) {mid : State}
    (hmid : s.books.Swept mid) {next : Phase} (hnext : next ≠ .parked false)
    (hleases : t.leases = (s.setPhase l next).leases) (howed : t.owed = s.owed)
    (hsettings : t.settings = s.settings) (heq : t.books = mid.addLease lease.route) :
    t.Attended := by
  refine h.of_le howed hsettings ?_ ?_ (fun r => ?_) ?_
  · rw [hleases]
    exact parked_setPhase hl hnext
  · rw [heq]
    simpa [State.addLease] using hmid.closed
  · have hleased := hmid.leased r
    rw [heq, State.account_addLease]
    split
    case isTrue hr =>
      subst hr
      simp only
      omega
    case isFalse => exact hleased.ge
  · rw [heq]
    show _ ≤ mid.leasedTotal + 1
    have hleasedTotal := hmid.leasedTotal
    omega

/-- A woken lease is not one that waits to be woken. -/
theorem phase_wake_ne (lease : Lease) : (wake lease).phase ≠ .parked false := by
  unfold wake
  split
  case h_1 => simp
  case h_2 hnot => exact hnot false

/-- Every effect keeps parked leases from being forgotten. -/
theorem Attended.effect (h : s.Attended) (hacc : s.Accounted) (he : Effect s t) : t.Attended := by
  have hbooks := hacc.balanced
  cases he with
  | none => exact h
  | start route deadline =>
    refine h.of_le rfl rfl (fun other hother hparked => ?_) rfl (fun r => Nat.le_refl _) (Nat.le_refl _)
    rcases List.mem_append.1 hother with hold | hnew
    · exact hold
    · simp only [List.mem_singleton] at hnew
      rw [hnew] at hparked
      cases hparked
  | quit hl hphase how =>
    exact h.of_le rfl rfl (parked_setPhase hl (by simp)) rfl (fun r => Nat.le_refl _) (Nat.le_refl _)
  | take hl hphase hclaim hconns =>
    obtain ⟨mid, hmid, heq, -⟩ := State.claim_reuse hbooks hclaim
    exact h.enter hl hmid (by simp) rfl rfl rfl heq
  | connect hl hphase hclaim hconns =>
    obtain ⟨mid, hmid, heq, -⟩ := State.claim_connect hbooks hclaim
    exact h.enter hl hmid (by simp) rfl rfl rfl heq
  | @park l lease hl hphase hopen live still books hclaim connections hconns =>
    obtain ⟨hswept, hcap⟩ := State.claim_wait hbooks hclaim
    have hleased (r : Route) : ((books.addPending lease.route).account r).leased =
        (s.books.account r).leased := by
      rw [State.leased_addPending, hswept.leased]
    have hleasedTotal : (books.addPending lease.route).leasedTotal = s.books.leasedTotal := by
      simp [State.addPending, hswept.leasedTotal]
    have hclosed : (books.addPending lease.route).closed = s.books.closed := by
      simp [State.addPending, hswept.closed]
    intro other hother hparked
    rw [AtCap, EndOwed, books_setPhase, hleased, hleasedTotal, hclosed]
    rcases mem_setPhase hl hother with hold | rfl
    · -- those who were parked before wait for what they waited for
      exact h other hold hparked
    · -- the lease itself has just found a cap reached
      exact ⟨fun hshut => absurd hshut (by simp [hopen]), .inl hcap⟩
  | ready hl hphase =>
    refine h.of_le rfl rfl (parked_setPhase hl (by simp)) ?_ (fun r => ?_) ?_
    · simp [State.countReused]
    · rw [books_ready, State.account_countReused]
    · simp [State.countReused]
  | connected hl hphase =>
    refine h.of_le rfl rfl (parked_setPhase hl (by simp)) ?_ (fun r => ?_) ?_
    · simp [State.countCreated]
    · rw [books_connected, State.account_countCreated]
    · simp [State.countCreated]
  | vacate hl hplace back hback hnext =>
    refine h.finish rfl (parked_setPhase (s := s.finish _ back) hl ?_) (State.closed_finishLease ..)
    rintro rfl
    cases hnext
  | @leave l lease hl hparked next hnext =>
    -- a lease that stops waiting is not parked any more, and nobody else gets a place by it
    have hne : next ≠ .parked false := by
      rintro rfl
      cases hnext
    exact h.of_le rfl rfl (parked_setPhase hl hne) rfl
      (fun r => (State.leased_removePending lease.route hbooks.keyed r).ge) (Nat.le_refl _)
  | wakeAll owed owedByRemovals =>
    intro other hother hparked
    obtain ⟨lease, -, rfl⟩ := List.mem_map.1 hother
    exact absurd hparked (phase_wake_ne lease)
  | wakeOne hl hparked =>
    exact h.of_le rfl rfl (parked_setPhase hl (by simp)) rfl (fun r => Nat.le_refl _) (Nat.le_refl _)
  | close | clock => exact h
  | evict live keep =>
    have hswept := State.Swept.evict hbooks live keep
    exact h.of_le rfl rfl (fun other hother _ => hother) hswept.closed
      (fun r => (hswept.leased r).ge) hswept.leasedTotal.ge
  | shutdown hopen =>
    -- the shutdown owes a broadcast of its own, besides those that the ends of leases owe
    intro other hother hparked
    obtain ⟨-, hcap⟩ := h other hother hparked
    refine ⟨fun _ => Nat.succ_pos _, hcap.imp (fun hcap => ?_) fun hend => ?_⟩
    · rw [AtCap, State.account_shutdown]
      exact hcap
    · rw [EndOwed, hopen] at hend
      exact Nat.succ_lt_succ hend
  | reorder hperm =>
    have haccount := State.account_reorder hbooks.keyed hperm
    exact h.of_le rfl rfl (fun other hother _ => hother) rfl
      (fun r => (congrArg Account.leased (haccount r)).ge) (Nat.le_refl _)

/-- In every state of a run, everyone parked is attended to. -/
theorem Reachable.attended {settings : PoolSettings} (h : Reachable settings s) : s.Attended :=
  h.induction_accounted (attended_init settings) fun _ _ hacc he hs => hs.effect hacc he

/-- No parked lease is forgotten in any state of any run. -/
theorem Reachable.noneForgotten {settings : PoolSettings} (h : Reachable settings s) :
    s.NoneForgotten := h.attended.noneForgotten

/-- At a cap, the caps leave no idle connection where the lease waits. -/
theorem Capped.idle_of_atCap (h : s.Capped) (hbooks : s.books.Balanced) {route : Route}
    (hcap : s.AtCap route) : (s.books.account route).idle = [] ∧
      (s.settings.maxPerRoute ≤ (s.books.account route).leased ∨
        s.settings.maxTotal ≤ s.books.leasedTotal ∧ s.books.idleTotal = 0) := by
  have hroute := h.route route
  have htotal := h.total
  have hidle := State.idle_length_le hbooks route
  refine ⟨List.length_eq_zero_iff.1 ?_, hcap.imp_right fun hfull => ⟨hfull, by omega⟩⟩
  rcases hcap with hfull | hfull
  · omega
  · omega

/-- Whenever neither an ended lease nor the shutdown owes a broadcast, a lease that is parked and
has not been woken waits in an open pool whose cap for the route, or for all routes, is reached by
leases; and a claim for its route, at any time and whatever connections are open, would have to wait
too. -/
theorem no_lost_wakeup {settings : PoolSettings} (h : Reachable settings s) (hquiet : s.owed = 0)
    (hlease : lease ∈ s.leases) (hparked : lease.phase = .parked false) :
    s.books.closed = false ∧
      (settings.maxPerRoute ≤ (s.books.get lease.route).leased ∨
        settings.maxTotal ≤ s.books.leasedTotal) ∧
      ∀ live still now, (s.books.claim settings live still now lease.route).1 = .wait := by
  have hbooks := h.accounted.balanced
  obtain ⟨hopen, hcap⟩ := h.noneForgotten hquiet lease hlease hparked
  obtain ⟨hidle, hfull⟩ := h.capped.idle_of_atCap hbooks hcap
  rw [AtCap] at hcap
  rw [h.settings_eq] at hcap hfull
  exact ⟨hopen, hcap, fun live still now => State.claim_fst_eq_wait hbooks hidle hfull⟩

/-- A lease of one route waits for the place that a lease of another route holds, while a removal of
idle connections still owes its broadcast. -/
theorem no_lost_wakeup_other_route :
    let settings : PoolSettings := ⟨1, 1, .standard⟩
    let route (port : UInt16) : Route := ⟨.http, ['h'], port⟩
    let s := (init settings).run
      [.start (route 80) none, .claim 0 [], .connected 0, .start (route 81) (some 9), .claim 1 [],
        .closeExpired]
    s.owed = 0 ∧ s.owedByRemovals = 1 ∧
      ∀ live still now, (s.books.claim settings live still now (route 81)).1 = .wait :=
  ⟨by decide, by decide, (no_lost_wakeup (reaches_run _ _) (by decide)
    (show ⟨⟨.http, ['h'], 81⟩, some 9, .parked false⟩ ∈ _ by decide) rfl).2.2⟩

end PooledHttp.Pool.System
