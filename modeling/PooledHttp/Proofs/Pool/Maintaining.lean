import PooledHttp.Proofs.Pool.Deciding
import PooledHttp.Proofs.Pool.Forgetting
import PooledHttp.Proofs.Pool.Histories

/-!
# Maintenance

Two operations go through the idle connections of all routes without a lease: one removes those that
have expired, the other those that have been idle for too long, and either removes the closed ones as
well. Both are evictions, each with a test of its own, and `State.Removes` says what an eviction does.

Every claim begins with an eviction, the one of the expired connections. Of two evictions in a row
the second alone decides, if it keeps no connection that the first removes (`evict_evict`). So a claim
cannot tell whether the expired connections have been removed before it (`claim_closeExpired`).
-/

set_option autoImplicit false

namespace PooledHttp.Pool

namespace State

/-- `t` is `s` without the idle connections that are `dead`, of which there are `removed`. -/
structure Removes (dead : IdleConnection → Bool) (s t : State) (removed : Nat) : Prop where
  balanced : t.Balanced
  /-- Exactly these connections are gone from the idle ones of every route, and the others keep their
  order. -/
  idle : ∀ r, (t.get r).idle = (s.get r).idle.filter fun c => !dead c
  count : removed = s.idleCount dead
  idleTotal : t.idleTotal + removed = s.idleTotal
  leased : ∀ r, (t.get r).leased = (s.get r).leased
  pending : ∀ r, (t.get r).pending = (s.get r).pending
  counts : t.leasedTotal = s.leasedTotal ∧ t.created = s.created ∧ t.reused = s.reused ∧
    t.closed = s.closed
  /-- The routes that are left with nothing leased, idle or waiting are forgotten, and no others. -/
  known : ∀ r, r ∈ t.routeList ↔ t.InUse r
  order : t.routeList.Sublist s.routeList
  /-- Nothing else changes in the entry of a route that is not forgotten. -/
  entry : ∀ r, t.InUse r →
    t.find? r = some { s.get r with idle := (s.get r).idle.filter fun c => !dead c }

variable {s t : State} {live live' : ConnId → Bool} {keep keep' dead : IdleConnection → Bool}
  {now now' : Millis}

/-! ## What an eviction removes -/

/-- The connections that pass a test and those that do not are all idle connections. -/
theorem idleCount_add_idleCount (s : State) (test : IdleConnection → Bool) :
    s.idleCount test + s.idleCount (fun c => !test c) = s.total fun a => a.idle.length := by
  rw [idleCount, idleCount, ← total_add]
  congr 1
  funext a
  simpa [Bool.not_eq_true] using (List.length_eq_countP_add_countP test (l := a.idle)).symm

/-- Evicting tells how many dead idle connections there were. -/
theorem evict_fst_eq (hdead : ∀ c, (live c.conn && keep c) = !dead c) (hs : s.Keyed) :
    (s.evict live keep).1 = s.idleCount dead := by
  have hall := idleCount_add_idleCount s dead
  have hkept : ((s.keepOnly live keep).total fun a => a.idle.length) =
      s.idleCount fun c => !dead c := by
    apply total_eq_total hs (keyed_keepOnly hs live keep) rfl rfl
    intro r
    rw [account_keepOnly]
    simp only [hdead, List.countP_eq_length_filter]
  rw [evict_fst, hkept]
  omega

/-- An eviction removes what is closed and what it is not to keep, and does nothing else. -/
theorem removes_evict (hs : s.Balanced) (hdead : ∀ c, (live c.conn && keep c) = !dead c) :
    s.Removes dead (s.evict live keep).2 (s.evict live keep).1 := by
  have hswept := Swept.evict hs live keep
  have haccount := account_evict hs.keyed live keep
  have hknown (r : Route) : r ∈ (s.evict live keep).2.routeList ↔ (s.evict live keep).2.InUse r :=
    ⟨tidy_evict hs.keyed live keep r, InUse.mem_routeList⟩
  simp only [hdead] at haccount
  refine
    { balanced := hswept.balanced
      idle := fun r => congrArg Account.idle (haccount r)
      count := evict_fst_eq hdead hs.keyed
      idleTotal := Nat.sub_add_cancel (evict_fst_le hs live keep)
      leased := hswept.leased
      pending := hswept.pending
      counts := ⟨rfl, rfl, rfl, rfl⟩
      known := hknown
      order := ?_
      entry := ?_ }
  · have hroutes : (s.keepOnly live keep).routeList = s.routeList := by
      simp [keepOnly, routeList, Function.comp_def]
    rw [← hroutes]
    exact List.filter_sublist.map Prod.fst
  · intro r huse
    have hfind := find?_evict hs.keyed live keep r
    simp only [hdead] at hfind
    -- an entry in use is not removed
    have hsome : (s.evict live keep).2.find? r ≠ none := fun hnone =>
      find?_eq_none_iff.1 hnone ((hknown r).2 huse)
    rw [hfind] at hsome ⊢
    cases hs : s.find? r with
    | none => simp [hs] at hsome
    | some p =>
      have hget : s.get r = p := by rw [State.get, hs, Option.getD_some]
      rw [hs, Option.map_some, Option.filter_some] at hsome
      rw [hget, Option.map_some, Option.filter_some]
      split at hsome
      case isTrue hused => rw [if_pos hused]
      case isFalse => exact absurd rfl hsome

/-- Closing expired connections removes those that are expired or closed, and no others. -/
theorem removes_closeExpired (hs : s.Balanced) (live : ConnId → Bool) (now : Millis) :
    s.Removes (fun c => c.isExpired now || !live c.conn) (s.closeExpired live now).2
      (s.closeExpired live now).1 := by
  apply removes_evict hs
  intro c
  rw [Bool.not_or, Bool.not_not, Bool.and_comm]

/-- Closing idle connections removes those idle for the time or longer, or closed, and no others. -/
theorem removes_closeIdle (hs : s.Balanced) (live : ConnId → Bool) (now time : Millis) :
    s.Removes (fun c => decide (time ≤ now - c.idleSince) || !live c.conn)
      (s.closeIdle live now time).2 (s.closeIdle live now time).1 := by
  apply removes_evict hs
  intro c
  rw [Bool.not_or, Bool.not_not, Bool.and_comm, ← decide_not]
  congr 1
  exact decide_eq_decide.2 Nat.not_le.symm

/-- What is removed as idle for a longer time is removed as idle for a shorter time. -/
theorem closeIdle_sublist (hs : s.Balanced) (live : ConnId → Bool) (now : Millis) {time longer : Millis}
    (hlonger : time ≤ longer) (r : Route) :
    ((s.closeIdle live now time).2.get r).idle.Sublist
      ((s.closeIdle live now longer).2.get r).idle := by
  rw [(removes_closeIdle hs live now time).idle, (removes_closeIdle hs live now longer).idle]
  apply List.monotone_filter_right
  intro c hc
  simp only [Bool.not_or, Bool.not_not, Bool.and_eq_true, Bool.not_eq_true', decide_eq_false_iff_not]
    at hc ⊢
  exact ⟨fun hlong => hc.1 (hlonger.trans hlong), hc.2⟩

/-! ## Two evictions in a row -/

/-- Balanced books are told by their entries and by the counts that no entry has. -/
theorem Balanced.eq_of_routes (hs : s.Balanced) (ht : t.Balanced) (hroutes : t.routes = s.routes)
    (hcreated : t.created = s.created) (hreused : t.reused = s.reused)
    (hclosed : t.closed = s.closed) : t = s := by
  have htotal (m : Account → Nat) : t.total m = s.total m := by rw [total, total, hroutes]
  have hleased : t.leasedTotal = s.leasedTotal := by rw [ht.leased, hs.leased, htotal]
  have hidle : t.idleTotal = s.idleTotal := by rw [ht.idle, hs.idle, htotal]
  cases s
  cases t
  simp_all

/-- Changing all entries and forgetting the unused ones, twice, comes to the second change alone if
this takes away no less than the first. -/
theorem filter_map_filter_map {f g : RoutePool → RoutePool} (hf : ∀ p, g (f p) = g p)
    (hunused : ∀ p, (f p).isUnused = true → (g p).isUnused = true)
    (routes : List (Route × RoutePool)) :
    (((routes.map fun e => (e.1, f e.2)).filter fun e => !e.2.isUnused).map
      fun e => (e.1, g e.2)).filter (fun e => !e.2.isUnused) =
      (routes.map fun e => (e.1, g e.2)).filter fun e => !e.2.isUnused := by
  induction routes with
  | nil => rfl
  | cons e rest ih =>
    by_cases hfirst : (f e.2).isUnused = true
    · simpa [hfirst, hunused e.2 hfirst] using ih
    · simp [hfirst, hf, List.filter_cons, ih]

/-- Of two evictions in a row the second alone decides, if it keeps no connection that the first
removes. -/
theorem evict_evict (hs : s.Balanced)
    (hkeep : ∀ c, (live' c.conn && keep' c) = true → (live c.conn && keep c) = true) :
    ((s.evict live keep).2.evict live' keep').2 = (s.evict live' keep').2 := by
  have hfirst := Swept.evict hs live keep
  have hboth := Swept.evict hfirst.balanced live' keep'
  refine Balanced.eq_of_routes (Swept.evict hs live' keep').balanced hboth.balanced ?_ rfl rfl rfl
  have hsub (l : List IdleConnection) :
      (l.filter fun c => live c.conn && keep c).filter (fun c => live' c.conn && keep' c) =
        l.filter fun c => live' c.conn && keep' c := by
    rw [List.filter_filter]
    apply List.filter_congr
    intro c _
    cases h : live' c.conn && keep' c with
    | true => rw [hkeep c h, Bool.and_self]
    | false => rw [Bool.false_and]
  refine filter_map_filter_map (f := fun p => { p with
    idle := p.idle.filter fun c => live c.conn && keep c }) (g := fun p => { p with
    idle := p.idle.filter fun c => live' c.conn && keep' c }) ?_ ?_ s.routes
  · intro p
    simp only [hsub]
  · intro p hunused
    simp only [RoutePool.isUnused, Bool.and_eq_true, List.isEmpty_iff] at hunused ⊢
    refine ⟨hunused.1, ?_⟩
    rw [← hsub, hunused.2, List.filter_nil]

/-- What has expired or is closed stays so. -/
theorem closeExpired_closeExpired (hs : s.Balanced)
    (hlive : ∀ c, live' c = true → live c = true) (hnow : now ≤ now') :
    ((s.closeExpired live now).2.closeExpired live' now').2 = (s.closeExpired live' now').2 := by
  apply evict_evict hs
  intro c hc
  simp only [Bool.and_eq_true, Bool.not_eq_true', IdleConnection.isExpired] at hc ⊢
  refine ⟨hlive _ hc.1, ?_⟩
  cases hexpiry : c.expiry with
  | none => rfl
  | some time =>
    have hlater := hc.2
    simp only [hexpiry, Option.any_some, decide_eq_false_iff_not] at hlater ⊢
    exact fun hover => hlater (hover.trans hnow)

/-- A claim comes to the same whether or not the expired connections have been removed before, at the
same time or earlier. -/
theorem claim_closeExpired (hs : s.Balanced) (hlive : ∀ c, live' c = true → live c = true)
    (hnow : now ≤ now') (settings : PoolSettings) (still : ConnId → Bool) (route : Route) :
    (s.closeExpired live now).2.claim settings live' still now' route =
      s.claim settings live' still now' route := by
  rw [claim, claim, closeExpired_closeExpired hs hlive hnow]

end State

namespace System

variable {s : System}

/-- Closing connections does not look at the books. -/
theorem foldl_closeConnection_with (s : System) (failing : List ConnId) (books : State) (owed : Nat) :
    failing.foldl closeConnection { s with books := books, owedByRemovals := owed } =
      { failing.foldl closeConnection s with books := books, owedByRemovals := owed } := by
  induction failing generalizing s with
  | nil => rfl
  | cons c failing ih => exact ih (s.closeConnection c)

/-- The claim of a lease comes to the same whether or not the expired connections have been removed
just before, but for the broadcast that the removal owes. -/
theorem step_claim_closeExpired (hbooks : s.books.Balanced) (hopen : s.books.closed = false)
    {l : LeaseId} (hphase : s.phase? l = some .claiming) (failing : List ConnId) :
    (s.step .closeExpired).step (.claim l failing) =
      { s.step (.claim l failing) with owedByRemovals := s.owedByRemovals + 1 } := by
  obtain ⟨lease, hl, hclaiming⟩ := Option.map_eq_some_iff.1 hphase
  obtain ⟨outcome, books, hclaim⟩ : ∃ outcome books, s.books.claim s.settings s.live
      (failing.foldl closeConnection s).live s.now lease.route = (outcome, books) := ⟨_, _, rfl⟩
  have hafter := foldl_closeConnection_with s failing (s.books.closeExpired s.live s.now).2
    (s.owedByRemovals + 1)
  have hclaim' : (s.step .closeExpired).books.claim s.settings s.live
      (failing.foldl closeConnection (s.step .closeExpired)).live s.now lease.route =
        (outcome, books) := by
    rw [← hclaim]
    show (s.books.closeExpired s.live s.now).2.claim s.settings s.live _ s.now lease.route = _
    rw [State.claim_closeExpired hbooks (fun _ h => h) le_rfl, step, hafter]
    rfl
  rw [step_of_lease (e := .claim l failing) rfl hl,
    step_of_lease (s := s.step .closeExpired) (e := .claim l failing) rfl hl, stepLease, stepLease,
    if_pos hclaiming, if_pos hclaiming, claim_eq hopen hclaim,
    claim_eq (s := s.step .closeExpired) hopen hclaim', step, hafter]
  rfl

/-- In every state of every run, whatever the time and whichever connections are closed: the removal
of expired connections takes away exactly the idle ones that have expired or are closed, and the
removal of idle ones exactly those that have been idle for at least the given time or are closed, from
all routes. Each says how many it has taken away, forgets the routes that are then unused, and changes
nothing else. The longer the given time, the fewer connections are removed.

A claim at the same time or later comes to the same, in its outcome and in the books, as without the
removal of expired connections before it; what the removal leaves behind is its broadcast. -/
theorem maintenance_exact {settings : PoolSettings} (h : Reachable settings s) :
    (∀ live now, s.books.Removes (fun c => c.isExpired now || !live c.conn)
      (s.books.closeExpired live now).2 (s.books.closeExpired live now).1) ∧
    (∀ live now time, s.books.Removes (fun c => decide (time ≤ now - c.idleSince) || !live c.conn)
      (s.books.closeIdle live now time).2 (s.books.closeIdle live now time).1) ∧
    (∀ live now time longer, time ≤ longer → ∀ r,
      ((s.books.closeIdle live now time).2.get r).idle.Sublist
        ((s.books.closeIdle live now longer).2.get r).idle) ∧
    (∀ live live' now now', (∀ c, live' c = true → live c = true) → now ≤ now' → ∀ still route,
      (s.books.closeExpired live now).2.claim settings live' still now' route =
        s.books.claim settings live' still now' route) ∧
    (s.books.closed = false → ∀ l, s.phase? l = some .claiming → ∀ failing,
      (s.step .closeExpired).step (.claim l failing) =
        { s.step (.claim l failing) with owedByRemovals := s.owedByRemovals + 1 }) := by
  have hbooks : s.books.Balanced := h.accounted.balanced
  refine ⟨State.removes_closeExpired hbooks, State.removes_closeIdle hbooks, ?_, ?_, ?_⟩
  · intro live now time longer hlonger r
    exact State.closeIdle_sublist hbooks live now hlonger r
  · intro live live' now now' hlive hnow still route
    exact State.claim_closeExpired hbooks hlive hnow settings still route
  · intro hopen l hphase failing
    exact step_claim_closeExpired hbooks hopen hphase failing

/-- Of two idle connections of a route the first has expired, and the one of another route has been
closed: both are removed, the other route is forgotten, and a claim takes what is left, as it would
have done anyway. -/
theorem maintenance_exact_two_removed :
    let settings : PoolSettings := ⟨2, 3, .standard⟩
    let route (port : UInt16) : Route := ⟨.http, ['h'], port⟩
    let s := (init settings).run
      [.start (route 80) none, .claim 0 [], .connected 0, .start (route 80) none, .claim 1 [],
        .connected 1, .start (route 81) none, .claim 2 [], .connected 2, .release 0 5, .release 1 0,
        .release 2 0, .closed 2, .tick 5, .start (route 80) none]
    let t := s.step .closeExpired
    s.books.Removes (fun c => c.isExpired s.now || !s.live c.conn) t.books 2 ∧
      t.books.routeList = [route 80] ∧ ((t.step (.claim 3 [])).phase? 3).bind Phase.conn? = some 1 ∧
      t.step (.claim 3 []) =
        { s.step (.claim 3 []) with owedByRemovals := s.owedByRemovals + 1 } := by
  intro settings route s t
  have hreachable : Reachable settings s := reaches_run _ _
  have hcount : (s.books.closeExpired s.live s.now).1 = 2 := by decide
  have hremoves := (maintenance_exact hreachable).1 s.live s.now
  rw [hcount] at hremoves
  refine ⟨hremoves, by decide, by decide, ?_⟩
  exact (maintenance_exact hreachable).2.2.2.2 (by decide) 3 (by decide) []

end System
end PooledHttp.Pool
