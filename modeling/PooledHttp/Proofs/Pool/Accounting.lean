import PooledHttp.Proofs.Pool.Claiming
import PooledHttp.Proofs.Pool.Moves

/-!
# The books count the leases

In every state of every run the books agree with the leases: a route has as many leased connections
as there are leases that occupy a place on it, and as many pending ones as there are leases parked on
it; the totals are the sums over the routes. The counts are kept by separate additions and
subtractions of many parties, and a subtraction from zero would go unnoticed, so the statement
`System.ExactBooks` says as well that none is ever made.

`System.Accounted` is the invariant that carries this. Each effect moves one lease to another phase
and changes the account of its route, and the two changes are the same (`System.Accounted.setPhase`).
-/

set_option autoImplicit false

namespace PooledHttp.Pool.System

/-! ## Counting leases -/

/-- The number of leases on a route that are in certain phases. -/
def leasesIn (s : System) (route : Route) (p : Phase → Bool) : Nat :=
  s.leases.countP fun lease => lease.route == route && p lease.phase

/-- Changing one element of a list changes a count by what that element contributes. -/
theorem countP_modify {α : Type} {l : List α} {i : Nat} {a : α} (h : l[i]? = some a) (f : α → α)
    (q : α → Bool) : (l.modify i f).countP q + (if q a then 1 else 0) =
      l.countP q + if q (f a) then 1 else 0 := by
  induction l generalizing i with
  | nil => simp at h
  | cons b l ih =>
    cases i with
    | zero =>
      obtain rfl : b = a := by simpa using h
      simp only [List.modify_zero_cons, List.countP_cons]
      omega
    | succ i =>
      have hrest := ih (by simpa using h)
      simp only [List.modify_succ_cons, List.countP_cons]
      omega

variable {s t : System} {l : LeaseId} {lease : Lease}

/-- A lease that changes its phase leaves the one count and enters the other. -/
theorem leasesIn_setPhase (hl : s.leases[l]? = some lease) {next : Phase}
    (hleases : t.leases = (s.setPhase l next).leases) (route : Route) (p : Phase → Bool) :
    t.leasesIn route p + (if lease.route = route ∧ p lease.phase then 1 else 0) =
      s.leasesIn route p + if lease.route = route ∧ p next then 1 else 0 := by
  have h := countP_modify hl (fun lease => { lease with phase := next })
    fun lease => lease.route == route && p lease.phase
  simpa [leasesIn, setPhase, hleases] using h

/-- A lease in a phase is counted on its route. -/
theorem leasesIn_pos (hl : s.leases[l]? = some lease) {p : Phase → Bool}
    (hp : p lease.phase = true) : 0 < s.leasesIn lease.route p :=
  List.countP_pos_iff.2 ⟨lease, List.mem_of_getElem? hl, by simp [hp]⟩

/-- A change of all leases that keeps their routes and whether their phases are counted keeps the
count. -/
theorem leasesIn_map (f : Lease → Lease) (hroute : ∀ lease, (f lease).route = lease.route)
    {p : Phase → Bool} (hp : ∀ lease, p (f lease).phase = p lease.phase) (route : Route) :
    ({ s with leases := s.leases.map f } : System).leasesIn route p = s.leasesIn route p := by
  simp only [leasesIn, List.countP_map]
  congr 1
  funext lease
  simp [hroute, hp]

/-- Waking a lease does not change its route. -/
@[simp]
theorem route_wake (lease : Lease) : (wake lease).route = lease.route := by
  unfold wake
  split <;> rfl

/-- Waking a lease does not change whether it occupies a place. -/
@[simp]
theorem hasPlace_wake (lease : Lease) : (wake lease).phase.hasPlace = lease.phase.hasPlace := by
  unfold wake
  split
  case h_1 h => rw [h]; rfl
  case h_2 => rfl

/-- Waking a lease does not change whether it is parked. -/
@[simp]
theorem isParked_wake (lease : Lease) : (wake lease).phase.isParked = lease.phase.isParked := by
  unfold wake
  split
  case h_1 h => rw [h]; rfl
  case h_2 => rfl

/-- Waking a lease does not change the connection that it has. -/
@[simp]
theorem conn?_wake (lease : Lease) : (wake lease).phase.conn? = lease.phase.conn? := by
  unfold wake
  split
  case h_1 h => rw [h]; rfl
  case h_2 => rfl

/-! ## The invariant -/

/-- The books are balanced and count the leases. -/
structure Accounted (s : System) : Prop where
  balanced : s.books.Balanced
  leased : ∀ route, (s.books.account route).leased = s.leasesIn route Phase.hasPlace
  pending : ∀ route, (s.books.account route).pending = s.leasesIn route Phase.isParked

/-- The books of a new pool count its leases, of which there are none. -/
theorem accounted_init (settings : PoolSettings) : (init settings).Accounted :=
  ⟨State.balanced_empty, fun _ => rfl, fun _ => rfl⟩

/-- A lease that occupies a place is counted as leased. -/
theorem Accounted.leased_pos (h : s.Accounted) (hl : s.leases[l]? = some lease)
    (hplace : lease.phase.hasPlace = true) : 0 < (s.books.account lease.route).leased := by
  rw [h.leased]
  exact leasesIn_pos hl hplace

/-- A parked lease is counted as pending. -/
theorem Accounted.pending_pos (h : s.Accounted) (hl : s.leases[l]? = some lease)
    (hparked : lease.phase.isParked = true) : 0 < (s.books.account lease.route).pending := by
  rw [h.pending]
  exact leasesIn_pos hl hparked

/-- The invariant is kept when a lease changes its phase and the books follow. -/
theorem Accounted.setPhase (h : s.Accounted) (hl : s.leases[l]? = some lease) {next : Phase}
    (hleases : t.leases = (s.setPhase l next).leases) (hbalanced : t.books.Balanced)
    (hleased : ∀ r, (t.books.account r).leased +
        (if lease.route = r ∧ lease.phase.hasPlace then 1 else 0) =
      (s.books.account r).leased + if lease.route = r ∧ next.hasPlace then 1 else 0)
    (hpending : ∀ r, (t.books.account r).pending +
        (if lease.route = r ∧ lease.phase.isParked then 1 else 0) =
      (s.books.account r).pending + if lease.route = r ∧ next.isParked then 1 else 0) :
    t.Accounted := by
  refine ⟨hbalanced, fun r => ?_, fun r => ?_⟩
  · have h1 := hleased r
    have h2 := leasesIn_setPhase hl hleases r Phase.hasPlace
    have h3 := h.leased r
    omega
  · have h1 := hpending r
    have h2 := leasesIn_setPhase hl hleases r Phase.isParked
    have h3 := h.pending r
    omega

/-- The invariant is kept when a lease gets a place on swept books. -/
theorem Accounted.enter (h : s.Accounted) (hl : s.leases[l]? = some lease)
    (hphase : lease.phase = .claiming) {mid : State} (hmid : s.books.Swept mid) {next : Phase}
    (hleases : t.leases = (s.setPhase l next).leases) (hbooks : t.books = mid.addLease lease.route)
    (hplace : next.hasPlace = true) (hparked : next.isParked = false) : t.Accounted := by
  have hplace' : lease.phase.hasPlace = false := by rw [hphase]; rfl
  have hparked' : lease.phase.isParked = false := by rw [hphase]; rfl
  refine h.setPhase hl hleases (hbooks ▸ hmid.balanced.addLease lease.route) (fun r => ?_) fun r => ?_
  all_goals
    have hleased := hmid.leased r
    have hpending := hmid.pending r
    rw [hbooks, State.account_addLease]
    by_cases hr : lease.route = r
    · subst hr
      simpa [hplace, hparked, hplace', hparked']
    · simpa [hr, Ne.symm hr]

/-- Every effect keeps the invariant. -/
theorem Accounted.effect (h : s.Accounted) (he : Effect s t) : t.Accounted := by
  have hbooks := h.balanced
  cases he with
  | none => exact h
  | start route deadline =>
    refine ⟨hbooks, fun r => ?_, fun r => ?_⟩
    · rw [h.leased]
      simp [leasesIn, Phase.hasPlace]
    · rw [h.pending]
      simp [leasesIn, Phase.isParked]
  | quit hl hphase how =>
    exact h.setPhase hl rfl hbooks (by simp [hphase, Phase.hasPlace])
      (by simp [hphase, Phase.isParked])
  | take hl hphase hclaim hconns =>
    obtain ⟨mid, hmid, heq, -⟩ := State.claim_reuse hbooks hclaim
    exact h.enter hl hphase hmid rfl heq rfl rfl
  | connect hl hphase hclaim hconns =>
    obtain ⟨mid, hmid, heq, -⟩ := State.claim_connect hbooks hclaim
    exact h.enter hl hphase hmid rfl heq rfl rfl
  | @park l lease hl hphase hopen live still books hclaim connections hconns =>
    obtain ⟨hswept, -⟩ := State.claim_wait hbooks hclaim
    refine h.setPhase hl rfl (hswept.balanced.addPending lease.route) (fun r => ?_) fun r => ?_
    all_goals
      have hleased := hswept.leased r
      have hpending := hswept.pending r
      simp only [books_setPhase, State.account_addPending]
      by_cases hr : lease.route = r
      · subst hr
        simpa [hphase, Phase.hasPlace, Phase.isParked]
      · simpa [hr, Ne.symm hr]
  | ready hl hphase =>
    refine h.setPhase hl rfl (hbooks.countReused _) (fun r => ?_) fun r => ?_
    all_goals simp [State.account_countReused, hphase, Phase.hasPlace, Phase.isParked]
  | connected hl hphase =>
    refine h.setPhase hl rfl (hbooks.countCreated _) (fun r => ?_) fun r => ?_
    all_goals simp [State.account_countCreated, hphase, Phase.hasPlace, Phase.isParked]
  | @vacate l lease hl hplace back hback next hnext =>
    -- the place that is given up was counted, so the subtraction takes one off
    have hpos := h.leased_pos hl hplace
    refine h.setPhase hl rfl (hbooks.finishLease s.live lease.route back hpos) (fun r => ?_)
      fun r => ?_
    · rw [books_setPhase, books_finish, State.account_finishLease _ _ _ hbooks.keyed, hplace,
        Phase.hasPlace_of_isOutside hnext]
      by_cases hr : lease.route = r
      · subst hr
        simpa using Nat.sub_add_cancel hpos
      · simp [hr, Ne.symm hr]
    · rw [books_setPhase, books_finish, State.pending_finishLease _ _ _ hbooks.keyed,
        Phase.isParked_of_hasPlace hplace, Phase.isParked_of_isOutside hnext]
  | @leave l lease hl hparked next hnext =>
    -- and so was the wait
    have hpos := h.pending_pos hl hparked
    refine h.setPhase hl rfl (hbooks.removePending lease.route) (fun r => ?_) fun r => ?_
    · rw [books_leave, State.leased_removePending _ hbooks.keyed,
        Phase.hasPlace_of_isParked hparked, Phase.hasPlace_of_isOutside hnext]
    · rw [books_leave, State.account_removePending _ hbooks.keyed, hparked,
        Phase.isParked_of_isOutside hnext]
      by_cases hr : lease.route = r
      · subst hr
        simpa using Nat.sub_add_cancel hpos
      · simp [hr, Ne.symm hr]
  | wakeAll owed owedByRemovals =>
    refine ⟨hbooks, fun r => ?_, fun r => ?_⟩
    · exact (h.leased r).trans (leasesIn_map (s := s) wake route_wake hasPlace_wake r).symm
    · exact (h.pending r).trans (leasesIn_map (s := s) wake route_wake isParked_wake r).symm
  | wakeOne hl hparked =>
    refine h.setPhase hl rfl hbooks (fun r => ?_) fun r => ?_
    · rw [Phase.hasPlace_of_isParked hparked]
      rfl
    · rw [hparked]
      rfl
  | close hconns => exact ⟨hbooks, h.leased, h.pending⟩
  | clock time => exact ⟨hbooks, h.leased, h.pending⟩
  | evict live keep =>
    have hswept := State.Swept.evict hbooks live keep
    exact ⟨hswept.balanced, fun r => (hswept.leased r).trans (h.leased r),
      fun r => (hswept.pending r).trans (h.pending r)⟩
  | shutdown =>
    refine ⟨hbooks.shutdown, fun r => ?_, fun r => ?_⟩
    · rw [State.account_shutdown]
      exact h.leased r
    · rw [State.account_shutdown]
      exact h.pending r
  | reorder hperm =>
    have haccount := State.account_reorder hbooks.keyed hperm
    refine ⟨hbooks.of_same (hbooks.keyed.reorder hperm) rfl rfl (fun r => ?_) fun r => ?_,
      fun r => ?_, fun r => ?_⟩
    · rw [haccount]
    · rw [haccount]
    · rw [haccount]
      exact h.leased r
    · rw [haccount]
      exact h.pending r

/-- The invariant holds in every state of every run. -/
theorem Reachable.accounted {settings : PoolSettings} (h : Reachable settings s) : s.Accounted :=
  h.induction (accounted_init settings) fun _ _ hmove hs => hs.effect hmove.effect

/-- What holds of a new pool and is kept by every effect, as long as the books count the leases,
holds in every state of every run. -/
theorem Reachable.induction_accounted {settings : PoolSettings} {P : System → Prop}
    (hinit : P (init settings)) (heffect : ∀ s t, s.Accounted → Effect s t → P s → P t)
    (h : Reachable settings s) : P s := by
  have hboth : s.Accounted ∧ P s :=
    h.induction (P := fun s => s.Accounted ∧ P s) ⟨accounted_init settings, hinit⟩
      fun s t hmove hs => ⟨hs.1.effect hmove.effect, heffect s t hs.1 hmove.effect hs.2⟩
  exact hboth.2

/-! ## The books and the leases -/

/-- The books agree with the leases, and no subtraction that an operation makes on them goes below
zero. -/
structure ExactBooks (s : System) : Prop where
  /-- Every route has at most one entry. -/
  nodup : (s.books.routes.map Prod.fst).Nodup
  /-- The leased connections of a route are the leases that are connecting, that wait for an idle
  connection to be ready, or that hold a connection; a route without an entry has none. -/
  leased : ∀ route, (s.books.get route).leased = s.leasesIn route Phase.hasPlace
  /-- The pending leases of a route are those parked; a route without an entry has none. -/
  pending : ∀ route, (s.books.get route).pending = s.leasesIn route Phase.isParked
  leasedTotal : s.books.leasedTotal = State.sumOver s.books.routes fun p => p.leased
  idleTotal : s.books.idleTotal = State.sumOver s.books.routes fun p => p.idle.length
  /-- When a lease gives back its place, both counts have one to take away. -/
  canFinish : ∀ (l : LeaseId) (lease : Lease), s.leases[l]? = some lease →
    lease.phase.hasPlace = true → 0 < (s.books.get lease.route).leased ∧ 0 < s.books.leasedTotal
  /-- When a parked lease leaves, there is an entry with one to take away. -/
  canLeave : ∀ (l : LeaseId) (lease : Lease), s.leases[l]? = some lease →
    lease.phase.isParked = true →
      (s.books.find? lease.route).isSome = true ∧ 0 < (s.books.get lease.route).pending
  /-- No more idle connections are evicted than the total counts. -/
  canEvict : ∀ live keep, (s.books.evict live keep).1 ≤ s.books.idleTotal
  /-- When a claim takes idle connections of its route one by one, the total counts all of them. -/
  canTake : ∀ live now route, ((s.books.closeExpired live now).2.get route).idle.length ≤
    (s.books.closeExpired live now).2.idleTotal
  /-- When a claim that took nothing closes the oldest idle connection, the total counts it. -/
  canMakeRoom : ∀ live still now route swept,
    (s.books.closeExpired live now).2.reuse still now route = (none, swept) →
      (State.oldestIdle swept.routes).isSome = true → 0 < swept.idleTotal
  /-- When all leases are over, nothing is leased and nobody waits. -/
  allOver : (∀ lease ∈ s.leases, ∃ how, lease.phase = .ended how) →
    s.books.leasedTotal = 0 ∧
      ∀ route, (s.books.get route).leased = 0 ∧ (s.books.get route).pending = 0

/-- Leases that are over are not counted. -/
theorem leasesIn_eq_zero (hover : ∀ lease ∈ s.leases, ∃ how, lease.phase = .ended how)
    {p : Phase → Bool} (hp : ∀ how, p (.ended how) = false) (route : Route) :
    s.leasesIn route p = 0 := by
  refine List.countP_eq_zero.2 fun lease hlease => ?_
  obtain ⟨how, hphase⟩ := hover lease hlease
  simp [hphase, hp]

/-- Where some connection is the oldest idle one, the total is not zero. -/
theorem idleTotal_pos {books : State} (hbooks : books.Balanced)
    (holdest : (State.oldestIdle books.routes).isSome = true) : 0 < books.idleTotal := by
  cases hevict : books.evictOldest? with
  | none =>
    have hnone : State.oldestIdle books.routes = none := Option.map_eq_none_iff.1 hevict
    simp [hnone] at holdest
  | some evicted =>
    have hfewer := (State.evictOldest?_some hbooks hevict).2
    omega

/-- In every state of every run the books agree with the leases, and no operation takes away from a
count more than is there. -/
theorem books_exact {settings : PoolSettings} (h : Reachable settings s) : s.ExactBooks := by
  have hacc := h.accounted
  have hbooks := hacc.balanced
  refine
    { nodup := hbooks.keyed
      leased := hacc.leased
      pending := hacc.pending
      leasedTotal := hbooks.leased
      idleTotal := hbooks.idle
      canFinish := fun l lease hl hplace => ?_
      canLeave := fun l lease hl hparked => ?_
      canEvict := State.evict_fst_le hbooks
      canTake := fun live now route => ?_
      canMakeRoom := fun live still now route swept hreuse holdest => ?_
      allOver := fun hover => ?_ }
  · have hpos := hacc.leased_pos hl hplace
    exact ⟨hpos, hpos.trans_le (State.leased_le hbooks lease.route)⟩
  · have hpos := hacc.pending_pos hl hparked
    refine ⟨?_, hpos⟩
    by_contra hunknown
    have hnone : s.books.find? lease.route = none := by simpa using hunknown
    simp [State.account, State.get, hnone, Account.blank] at hpos
  · exact State.idle_length_le (State.Swept.evict hbooks live _).balanced route
  · exact idleTotal_pos (State.claim_swept hbooks hreuse).1.balanced holdest
  · have hleased (route : Route) : (s.books.account route).leased = 0 := by
      rw [hacc.leased, leasesIn_eq_zero hover fun _ => rfl]
    refine ⟨?_, fun route => ⟨hleased route, ?_⟩⟩
    · rw [hbooks.leased, State.total_eq_sum hbooks.keyed rfl
        (s.books.routes.map Prod.fst).toFinset (by simp)]
      exact Finset.sum_eq_zero fun route _ => hleased route
    · exact (hacc.pending route).trans (leasesIn_eq_zero hover (fun _ => rfl) route)

/-- With one place for a route, two leases: one holds a connection and the other is parked. -/
theorem books_exact_one_held_one_parked :
    let settings : PoolSettings := ⟨1, 1, .standard⟩
    let route : Route := ⟨.http, ['h'], 80⟩
    let s := (init settings).run
      [.start route none, .claim 0 [], .connected 0, .start route none, .claim 1 []]
    Reachable settings s ∧ s.ExactBooks ∧ s.leasesIn route Phase.hasPlace = 1 ∧
      s.leasesIn route Phase.isParked = 1 ∧ (s.books.get route).leased = 1 ∧
      (s.books.get route).pending = 1 :=
  ⟨reaches_run _ _, books_exact (reaches_run _ _), by decide, by decide, by decide, by decide⟩

end PooledHttp.Pool.System
