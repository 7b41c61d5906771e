import PooledHttp.Proofs.Pool.Accounting

/-!
# The caps hold

A route never has more open connections, leased and idle together, than its cap, and all routes
together never more than theirs, whatever the caps are and in whatever order the parties come to the
books.

A claim looks at the leases of the route only, not at its idle connections: it may, because it has
removed them all before. Under the cap over all routes it makes room by closing one idle connection,
and one is enough, because the totals are exact (`System.Accounted`).
-/

set_option autoImplicit false

namespace PooledHttp.Pool.System

/-- Both caps are respected. -/
structure Capped (s : System) : Prop where
  route : ∀ r, (s.books.account r).leased + (s.books.account r).idle.length ≤
    s.settings.maxPerRoute
  total : s.books.leasedTotal + s.books.idleTotal ≤ s.settings.maxTotal

/-- A new pool respects its caps. -/
theorem capped_init (settings : PoolSettings) : (init settings).Capped :=
  ⟨fun _ => Nat.zero_le _, Nat.zero_le _⟩

variable {s t : System}

/-- The settings of a pool do not change. -/
theorem Effect.settings_eq (he : Effect s t) : t.settings = s.settings := by
  cases he <;> rfl

/-- Fewer leased and idle connections respect the caps as well. -/
theorem Capped.of_le (h : s.Capped) (hsettings : t.settings = s.settings)
    (hroute : ∀ r, (t.books.account r).leased + (t.books.account r).idle.length ≤
      (s.books.account r).leased + (s.books.account r).idle.length)
    (htotal : t.books.leasedTotal + t.books.idleTotal ≤
      s.books.leasedTotal + s.books.idleTotal) : t.Capped :=
  ⟨fun r => hsettings ▸ (hroute r).trans (h.route r), hsettings ▸ htotal.trans h.total⟩

/-- Sweeping leaves no more open connections. -/
theorem Capped.swept (h : s.Capped) (hbooks : s.books.Balanced)
    (hsettings : t.settings = s.settings) (hswept : s.books.Swept t.books) : t.Capped := by
  refine h.of_le hsettings (fun r => ?_) ?_
  · rw [hswept.leased r]
    exact Nat.add_le_add_left (hswept.idle r).length_le _
  · rw [hswept.leasedTotal]
    exact Nat.add_le_add_left (hswept.idleTotal_le hbooks) _

/-- A lease may be entered on swept books when both caps leave a place. -/
theorem Capped.enter (h : s.Capped) (hsettings : t.settings = s.settings) {mid : State}
    (hmid : s.books.Swept mid) {route : Route} (heq : t.books = mid.addLease route)
    (hroute : (mid.account route).leased + (mid.account route).idle.length <
      s.settings.maxPerRoute)
    (htotal : mid.leasedTotal + mid.idleTotal < s.settings.maxTotal) : t.Capped := by
  refine ⟨fun r => ?_, ?_⟩
  · rw [heq, hsettings, State.account_addLease]
    split
    case isTrue =>
      simp only
      omega
    case isFalse =>
      have hleased := hmid.leased r
      have hidle := (hmid.idle r).length_le
      have hcap := h.route r
      omega
  · have hleasedTotal : t.books.leasedTotal = mid.leasedTotal + 1 := by rw [heq]; rfl
    have hidleTotal : t.books.idleTotal = mid.idleTotal := by
      rw [heq]
      exact State.idleTotal_modify mid route fun p => { p with leased := p.leased + 1 }
    rw [hsettings]
    omega

/-- Every effect respects the caps. -/
theorem Capped.effect (h : s.Capped) (hacc : s.Accounted) (he : Effect s t) : t.Capped := by
  have hbooks := hacc.balanced
  have hsettings := he.settings_eq
  cases he with
  | none => exact h
  | start | quit | wakeAll | wakeOne | close | clock => exact ⟨h.route, h.total⟩
  | @take l lease hl hphase live still c books hclaim connections hconns =>
    -- the connection leaves the idle list as the lease is entered, so the sum stays
    obtain ⟨mid, hmid, heq, -, hfewer, hcount⟩ := State.claim_reuse hbooks hclaim
    have hone := hcount fun _ => true
    simp only [State.idleCount, List.countP_true, if_true, ← hmid.balanced.idle, ← hbooks.idle]
      at hone
    have hleased := hmid.leased lease.route
    have hleasedTotal := hmid.leasedTotal
    have hroute := h.route lease.route
    have htotal := h.total
    exact h.enter hsettings hmid heq (by omega) (by omega)
  | @connect l lease hl hphase live still books hclaim connections hconns =>
    -- room was made before the lease was entered
    obtain ⟨mid, hmid, heq, hnone, hbelow, hroom⟩ := State.claim_connect hbooks hclaim
    have hleasedTotal := hmid.leasedTotal
    have htotal := h.total
    refine h.enter hsettings hmid heq ?_ (by omega)
    rw [hnone]
    exact hbelow
  | @park l lease hl hphase hopen live still books hclaim connections hconns =>
    obtain ⟨hswept, -⟩ := State.claim_wait hbooks hclaim
    have hcapped : ({ s with books := books } : System).Capped := h.swept hbooks rfl hswept
    refine hcapped.of_le rfl (fun r => ?_) ?_
    · rw [books_setPhase, State.leased_addPending, State.idle_addPending]
    · simp [State.addPending]
  | ready hl hphase =>
    refine h.of_le hsettings (fun r => ?_) ?_
    · rw [books_ready, State.account_countReused]
    · simp [State.countReused]
  | connected hl hphase =>
    refine h.of_le hsettings (fun r => ?_) ?_
    · rw [books_connected, State.account_countCreated]
    · simp [State.countCreated]
  | @vacate l lease hl hplace back hback next hnext =>
    -- at most the one connection takes the place that is given up
    have hpos := hacc.leased_pos hl hplace
    have hkept : (s.books.kept s.live back).toList.length ≤ 1 := by
      cases s.books.kept s.live back <;> simp
    refine h.of_le hsettings (fun r => ?_) ?_
    · rw [books_setPhase, books_finish, State.account_finishLease _ _ _ hbooks.keyed]
      split
      case isTrue hr =>
        rw [hr]
        simp only [List.length_append]
        omega
      case isFalse => exact Nat.le_refl _
    · have hall := State.leased_le hbooks lease.route
      rw [books_setPhase, books_finish, State.leasedTotal_finishLease, State.idleTotal_finishLease]
      omega
  | @leave l lease hl hparked next hnext =>
    refine h.of_le hsettings (fun r => ?_) (Nat.le_refl _)
    rw [books_leave, State.leased_removePending _ hbooks.keyed,
      State.idle_removePending _ hbooks.keyed]
  | evict live keep => exact h.swept hbooks rfl (.evict hbooks live keep)
  | shutdown =>
    refine h.of_le rfl (fun r => ?_) (Nat.add_le_add_left (Nat.zero_le _) _)
    rw [State.account_shutdown]
    exact Nat.add_le_add_left (Nat.zero_le _) _
  | reorder hperm =>
    refine h.of_le rfl (fun r => ?_) (Nat.le_refl _)
    rw [State.account_reorder hbooks.keyed hperm]

/-- The settings of a pool are those that it was made with. -/
theorem Reachable.settings_eq {settings : PoolSettings} (h : Reachable settings s) :
    s.settings = settings :=
  h.induction (P := fun s => s.settings = settings) rfl fun _ _ hmove hs =>
    hmove.effect.settings_eq.trans hs

/-- The caps are respected in every state of every run. -/
theorem Reachable.capped {settings : PoolSettings} (h : Reachable settings s) : s.Capped :=
  h.induction_accounted (capped_init settings) fun _ _ hacc he hs => hs.effect hacc he

/-- In every state of every run, each route has at most as many open connections as its cap allows,
and all routes together at most as many as theirs. -/
theorem caps_respected {settings : PoolSettings} (h : Reachable settings s) :
    (∀ route p, (route, p) ∈ s.books.routes → p.leased + p.idle.length ≤ settings.maxPerRoute) ∧
      s.books.leasedTotal + s.books.idleTotal ≤ settings.maxTotal := by
  have hcapped := h.capped
  rw [← h.settings_eq]
  refine ⟨fun route p hp => ?_, hcapped.total⟩
  have hroute := hcapped.route route
  rwa [State.account_of_mem h.accounted.balanced.keyed hp] at hroute

/-- Two routes share two places: one connection is idle and one is held when a third lease makes
room for itself by closing the idle one. -/
theorem caps_respected_with_eviction :
    let settings : PoolSettings := ⟨1, 2, .standard⟩
    let route (port : UInt16) : Route := ⟨.http, ['h'], port⟩
    let s := (init settings).run
      [.start (route 80) none, .claim 0 [], .connected 0, .release 0 5,
        .start (route 81) none, .claim 1 [], .connected 1, .start (route 82) none, .claim 2 []]
    Reachable settings s ∧ s.books.leasedTotal = 2 ∧ s.books.idleTotal = 0 ∧
      (∀ r p, (r, p) ∈ s.books.routes → p.leased + p.idle.length ≤ 1) ∧
      s.books.leasedTotal + s.books.idleTotal ≤ 2 :=
  ⟨reaches_run _ _, by decide, by decide, caps_respected (reaches_run _ _)⟩

end PooledHttp.Pool.System
