import PooledHttp.Proofs.Pool.Closing

/-!
# Unused routes are forgotten

Entries of the books are made on demand in many places and removed in one, `State.prune`. The books
are tidy when every entry has something leased, idle or waiting. An operation that can empty an entry
prunes afterwards, and one that makes an entry puts something into it; a claim sweeps first, so the
only entry that it can leave empty is that of its own route, in which it then enters the lease.

The exception is the shutdown. It takes the idle connections out of all entries and does not prune,
so a route with idle connections alone keeps an entry of which nothing is left. Such an entry is
forgotten when the next lease or wait ends, or with the next removal of idle connections.
-/

set_option autoImplicit false

namespace PooledHttp.Pool

namespace State

/-- Something is leased, idle or waiting on the route. -/
def InUse (s : State) (route : Route) : Prop :=
  0 < (s.get route).leased ∨ (s.get route).idle ≠ [] ∨ 0 < (s.get route).pending

/-- Every route with an entry is in use, but perhaps for one. -/
def TidyBut (s : State) (route : Route) : Prop := ∀ r ∈ s.routeList, r ≠ route → s.InUse r

/-- Every route with an entry is in use. -/
def Tidy (s : State) : Prop := ∀ r ∈ s.routeList, s.InUse r

variable {s t : State} {route : Route}

/-- A route is in use exactly if its account is not blank. -/
theorem inUse_iff : s.InUse route ↔ s.account route ≠ .blank := by
  simp only [InUse, account, RoutePool.account, Account.blank, ne_eq, Account.mk.injEq, not_and_or,
    Nat.pos_iff_ne_zero]

/-- What is in use depends on the account alone. -/
theorem inUse_congr (h : t.account route = s.account route) : t.InUse route ↔ s.InUse route := by
  rw [inUse_iff, inUse_iff, h]

/-- A route has no entry exactly if it is not listed. -/
theorem find?_eq_none_iff : s.find? route = none ↔ route ∉ s.routeList := by
  refine ⟨fun h hknown => ?_, lookup_eq_none_of_not_mem⟩
  obtain ⟨e, he, rfl⟩ := List.mem_map.1 hknown
  simpa using List.lookup_eq_none_iff.1 h e he

/-- A route in use has an entry. -/
theorem InUse.mem_routeList (h : s.InUse route) : route ∈ s.routeList := by
  by_contra hunknown
  have hnone := find?_eq_none_iff.2 hunknown
  rw [inUse_iff] at h
  exact h (by simp [account, State.get, hnone])

/-! ## The routes with an entry -/

/-- Modifying an entry that is there lists the same routes. -/
theorem routeList_modifyKnown (s : State) (route : Route) (f : RoutePool → RoutePool) :
    (s.modifyKnown route f).routeList = s.routeList := by
  simp [modifyKnown_eq, routeList, Function.comp_def]

/-- A change adds no entry but that of its own route. -/
theorem mem_routeList_modify {f : RoutePool → RoutePool} {r : Route}
    (h : r ∈ (s.modify route f).routeList) : r = route ∨ r ∈ s.routeList := by
  unfold modify at h
  split at h
  case isTrue => exact .inr (by rwa [← routeList_modifyKnown s route f])
  case isFalse =>
    rw [routeList, List.map_append, List.mem_append] at h
    exact h.symm.imp_left (by simp)

/-! ## Operations that tidy up, and operations that keep tidy -/

/-- Books without entries are tidy. -/
theorem tidy_empty : State.empty.Tidy := by
  intro r hr
  cases hr

/-- Tidy books are tidy but for any route. -/
theorem Tidy.tidyBut (h : s.Tidy) : s.TidyBut route := fun r hr _ => h r hr

/-- Books that are tidy but for a route in use are tidy. -/
theorem TidyBut.tidy (h : s.TidyBut route) (huse : s.InUse route) : s.Tidy := by
  intro r hr
  by_cases heq : r = route
  · exact heq ▸ huse
  · exact h r hr heq

/-- Where an operation changes one account, the books stay tidy but for that one. -/
theorem TidyBut.of_change (h : s.TidyBut route)
    (hlist : ∀ r ∈ t.routeList, r = route ∨ r ∈ s.routeList)
    (hothers : ∀ r, r ≠ route → t.account r = s.account r) : t.TidyBut route := by
  intro r hr hne
  have hknown : r ∈ s.routeList := (hlist r hr).resolve_left hne
  exact (inUse_congr (hothers r hne)).2 (h r hknown hne)

/-- Pruning leaves no entry unused. -/
theorem tidy_prune (hs : s.Keyed) : s.prune.Tidy := by
  intro r hr
  obtain ⟨⟨_, p⟩, he, rfl⟩ := List.mem_map.1 hr
  have hused : p.isUnused ≠ true := by simpa using (List.mem_filter.1 he).2
  rw [inUse_iff, account_of_mem hs.prune he]
  exact fun hblank => hused ((RoutePool.isUnused_iff p).2 hblank)

/-- A removal of idle connections leaves no entry unused, whatever was there before. -/
theorem tidy_evict (hs : s.Keyed) (live : ConnId → Bool) (keep : IdleConnection → Bool) :
    (s.evict live keep).2.Tidy := by
  have hkept : ({ s.keepOnly live keep with
      idleTotal := s.idleTotal - (s.evict live keep).1 } : State).Keyed :=
    keyed_keepOnly hs live keep
  exact tidy_prune hkept

/-- A lease makes its route one in use. -/
theorem TidyBut.addLease (h : s.TidyBut route) : (s.addLease route).Tidy := by
  have hchanged : (s.addLease route).TidyBut route := by
    refine h.of_change (fun r hr => mem_routeList_modify hr) fun r hr => ?_
    rw [account_addLease, if_neg hr]
  refine hchanged.tidy (.inl ?_)
  have haccount := account_addLease s route route
  rw [if_pos rfl] at haccount
  have hleased : ((s.addLease route).get route).leased = (s.account route).leased + 1 :=
    congrArg Account.leased haccount
  omega

/-- A wait makes its route one in use. -/
theorem TidyBut.addPending (h : s.TidyBut route) : (s.addPending route).Tidy := by
  have hchanged : (s.addPending route).TidyBut route := by
    refine h.of_change (fun r hr => mem_routeList_modify hr) fun r hr => ?_
    rw [account_addPending, if_neg hr]
  refine hchanged.tidy (.inr (.inr ?_))
  have haccount := account_addPending (s := s) route route
  rw [if_pos rfl] at haccount
  have hpending : ((s.addPending route).get route).pending = (s.account route).pending + 1 :=
    congrArg Account.pending haccount
  omega

/-- Counting what has been created or reused touches no account. -/
theorem Tidy.modify_counts (h : s.Tidy) (huse : s.InUse route) {f : RoutePool → RoutePool}
    (hf : ∀ p, (f p).account = p.account) : (s.modify route f).Tidy := by
  intro r hr
  refine (inUse_congr (account_modify_counts route hf r)).2 ?_
  rcases mem_routeList_modify hr with rfl | hknown
  · exact huse
  · exact h r hknown

/-- The end of a lease leaves no entry unused: either it parks a connection or it prunes. -/
theorem Tidy.finishLease (h : s.Tidy) (hs : s.Keyed) (live : ConnId → Bool) (route : Route)
    (parked : Option IdleConnection) : (s.finishLease live route parked).Tidy := by
  rw [finishLease_eq]
  cases hkept : s.kept live parked with
  | none => exact tidy_prune (keyed_endLease route hs)
  | some c =>
    have haccount := account_finishLease live route parked hs
    rw [finishLease_eq, hkept] at haccount
    have hchanged : State.TidyBut { (s.endLease route).modify route fun p =>
        { p with idle := p.idle ++ [c] } with idleTotal := s.idleTotal + 1 } route := by
      refine h.tidyBut.of_change (fun r hr => ?_) fun r hr => ?_
      · exact (mem_routeList_modify hr).elim .inl fun hr => mem_routeList_modify hr
      · exact (haccount r).trans (if_neg hr)
    refine hchanged.tidy (inUse_iff.2 fun hblank => ?_)
    have hidle := congrArg Account.idle ((haccount route).symm.trans hblank)
    simp [Account.blank] at hidle

/-- Choosing among the idle connections of a route can empty the entry of that route alone. -/
theorem TidyBut.thin (h : s.TidyBut route) (f : List IdleConnection → List IdleConnection)
    (hf : (f (s.account route).idle).Sublist (s.account route).idle) :
    (s.thin route f).TidyBut route := by
  refine h.of_change (fun r hr => .inr ?_) fun r hr => ?_
  · rwa [← routeList_modifyKnown s route fun p => { p with idle := f p.idle }]
  · rw [account_thin hf, if_neg hr]

/-- Books are tidy after the oldest idle connection is evicted, for unused entries are removed then.
-/
theorem tidy_evictOldest? (hs : s.Balanced) (h : s.evictOldest? = some t) : t.Tidy := by
  unfold evictOldest? at h
  obtain ⟨⟨oldest, since⟩, -, rfl⟩ := Option.map_eq_some_iff.1 h
  have hkeyed : ({ s.modifyKnown oldest fun p => { p with idle := p.idle.tail } with
      idleTotal := s.idleTotal - 1 } : State).Keyed :=
    hs.keyed.modifyKnown oldest fun p => { p with idle := p.idle.tail }
  exact tidy_prune hkeyed

/-! ## Claims -/

section Claim

variable {settings : PoolSettings} {live still : ConnId → Bool} {now : Millis}

/-- Whatever the books were before, a claim leaves them tidy when it takes a place, and tidy but for
its own route when it has to wait. -/
theorem tidy_claim (hs : s.Balanced) {outcome : Claim}
    (h : s.claim settings live still now route = (outcome, t)) :
    t.TidyBut route ∧ (outcome ≠ .wait → t.Tidy) := by
  have htidy : (s.closeExpired live now).2.TidyBut route := (tidy_evict hs.keyed live _).tidyBut
  have hplace {u : State} (hu : u.TidyBut route) :
      (u.addLease route).TidyBut route ∧ (outcome ≠ .wait → (u.addLease route).Tidy) :=
    ⟨hu.addLease.tidyBut, fun _ => hu.addLease⟩
  -- looking for an idle connection of the route can empty the entry of that route alone
  have hnone {swept : State}
      (hswept : swept = (s.closeExpired live now).2.thin route fun _ => []) :
      swept.TidyBut route :=
    hswept ▸ htidy.thin (fun _ => []) (List.nil_sublist _)
  cases claimed h with
  | @reuse older newer c hidle =>
    exact hplace (htidy.thin (fun _ => older) (hidle ▸ List.sublist_append_left ..))
  | wait hswept => exact ⟨hnone hswept, fun hwait => absurd rfl hwait⟩
  | connect hswept => exact hplace (hnone hswept)
  | evict hswept _ _ _ hevict =>
    exact hplace (tidy_evictOldest? (swept_of_eq hs hswept).1.balanced hevict).tidyBut

end Claim

end State

/-! ## Runs -/

namespace System

variable {s t : System}

/-- The route of a lease that occupies a place is in use. -/
theorem Accounted.inUse (h : s.Accounted) {l : LeaseId} {lease : Lease}
    (hl : s.leases[l]? = some lease) (hplace : lease.phase.hasPlace = true) :
    s.books.InUse lease.route :=
  .inl (h.leased_pos hl hplace)

/-- Every effect but the shutdown of the pool keeps the books tidy. -/
theorem Effect.tidy (he : Effect s t) (hacc : s.Accounted) (h : s.books.Tidy) :
    t.books.Tidy ∨ s.books.closed = false ∧ t.books = s.books.shutdown := by
  have hbooks := hacc.balanced
  cases he with
  | none | start | quit | wakeAll | wakeOne | close | clock => exact .inl h
  | take hl hphase hclaim => exact .inl ((State.tidy_claim hbooks hclaim).2 (by simp))
  | connect hl hphase hclaim => exact .inl ((State.tidy_claim hbooks hclaim).2 (by simp))
  | park hl hphase hopen hclaim => exact .inl (State.tidy_claim hbooks hclaim).1.addPending
  | ready hl hphase =>
    have huse := hacc.inUse hl (by rw [hphase]; rfl)
    exact .inl (h.modify_counts huse (f := fun p => { p with reused := p.reused + 1 }) fun _ => rfl)
  | connected hl hphase =>
    have huse := hacc.inUse hl (by rw [hphase]; rfl)
    exact .inl (h.modify_counts huse (f := fun p => { p with created := p.created + 1 }) fun _ => rfl)
  | vacate hl hplace back => exact .inl (h.finishLease hbooks.keyed s.live _ back)
  | leave => exact .inl (State.tidy_prune (hbooks.keyed.modifyKnown _ _))
  | evict live keep => exact .inl (State.tidy_evict hbooks.keyed live keep)
  | shutdown hopen => exact .inr ⟨hopen, rfl⟩
  | reorder hperm =>
    refine .inl fun r hr => ?_
    have hknown : r ∈ s.books.routeList := (hperm.map Prod.fst).mem_iff.2 hr
    exact (State.inUse_congr (State.account_reorder hbooks.keyed hperm r)).2 (h r hknown)

/-- Until the shutdown the books are tidy. -/
theorem Reachable.tidy {settings : PoolSettings} (h : Reachable settings s)
    (hopen : s.books.closed = false) : s.books.Tidy := by
  refine h.induction_accounted (P := fun s => s.books.closed = false → s.books.Tidy)
    (fun _ => State.tidy_empty) (fun s t hacc he hs hopen => ?_) hopen
  -- a pool that is open now has been open before
  have hwas : s.books.closed = false := by
    cases hclosed : s.books.closed with
    | false => rfl
    | true => exact absurd (he.closed hacc hclosed) (by simp [hopen])
  rcases he.tidy hacc (hs hwas) with htidy | ⟨-, hshutdown⟩
  · exact htidy
  · rw [hshutdown] at hopen
    cases hopen

/-- In every state of every run, up to the shutdown, the routes that have an entry are exactly those
with something leased, idle or waiting, and there are figures for these routes alone. The only step
that leaves an entry unused is the shutdown, and the next removal of idle connections, the next end
of a wait, and the next end of a lease whose connection is not parked forget all such entries. -/
theorem unused_routes_forgotten {settings : PoolSettings} (h : Reachable settings s) :
    (s.books.closed = false → ∀ route,
      (route ∈ s.books.routeList ↔ s.books.InUse route) ∧
        (s.routeStats? route = none ↔ ¬ s.books.InUse route)) ∧
    (∀ t, Move s t → s.books.Tidy → ¬ t.books.Tidy →
      s.books.closed = false ∧ t.books = s.books.shutdown) ∧
    (∀ live keep, (s.books.evict live keep).2.Tidy) ∧
    ∀ route, (s.books.removePending route).Tidy ∧ (s.books.finishLease s.live route none).Tidy := by
  have hacc := h.accounted
  have hkeyed := hacc.balanced.keyed
  refine ⟨fun hopen route => ?_, fun t hmove htidy huntidy => ?_, ?_, fun route => ⟨?_, ?_⟩⟩
  · have hlisted : route ∈ s.books.routeList ↔ s.books.InUse route :=
      ⟨h.tidy hopen route, State.InUse.mem_routeList⟩
    refine ⟨hlisted, ?_⟩
    rw [← hlisted, ← State.find?_eq_none_iff]
    exact Option.map_eq_none_iff
  · exact (hmove.effect.tidy hacc htidy).resolve_left huntidy
  · exact State.tidy_evict hkeyed
  · exact State.tidy_prune (hkeyed.modifyKnown route _)
  · exact State.tidy_prune (State.keyed_endLease route hkeyed)

/-- One route has a connection leased, one has one idle, one has a lease waiting, and a fourth has
been forgotten. -/
theorem unused_routes_forgotten_three_in_use :
    let settings : PoolSettings := ⟨1, 2, .standard⟩
    let route (port : UInt16) : Route := ⟨.http, ['h'], port⟩
    let s := (init settings).run
      [.start (route 80) none, .claim 0 [], .connected 0, .drop 0,
        .start (route 81) none, .claim 1 [], .connected 1,
        .start (route 82) none, .claim 2 [], .connected 2,
        .start (route 83) none, .claim 3 [], .release 2 5]
    s.books.routeList = [route 81, route 82, route 83] ∧
      ∀ r, r ∈ s.books.routeList ↔ s.books.InUse r :=
  ⟨by decide, fun r => ((unused_routes_forgotten (reaches_run _ _)).1 (by decide) r).1⟩

/-- After the shutdown of a pool with one idle connection, its route still has an entry and figures,
although nothing is leased, idle or waiting. -/
theorem unused_route_listed_after_shutdown :
    let settings : PoolSettings := ⟨1, 1, .standard⟩
    let route : Route := ⟨.http, ['h'], 80⟩
    let s := (init settings).run
      [.start route none, .claim 0 [], .connected 0, .release 0 5, .shutdown]
    Reachable settings s ∧ route ∈ s.books.routeList ∧ (s.routeStats? route).isSome = true ∧
      ¬ s.books.InUse route := by
  refine ⟨reaches_run _ _, by decide, by decide, ?_⟩
  unfold State.InUse
  decide

end System
end PooledHttp.Pool
