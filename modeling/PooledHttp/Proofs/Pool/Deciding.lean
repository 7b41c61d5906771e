import PooledHttp.Proofs.Pool.Caps

/-!
# What a claim decides

A claim tests one condition after the other, and some of its tests change the books. What it comes to
can be told beforehand: from the number of leases, from the idle connections that are not dead, and
from the caps. `State.Decided` says how, and which entries the books have afterwards; `State.remaining?`
is what any of the outcomes leaves of a route that it does not touch.

That a claim waits only when the leases alone have reached a cap needs books that are balanced and
within the caps: the idle connections of a route whose leases have reached its cap are none then, and
where room has to be made, one connection makes enough of it.
-/

set_option autoImplicit false

namespace PooledHttp.Pool

/-- The entry of a route without its dead idle connections. -/
def RoutePool.withoutDead (p : RoutePool) (live : ConnId → Bool) (now : Millis) : RoutePool :=
  { p with idle := p.idle.filter fun c => c.isReusable live now }

namespace State

/-- What is left of the entry of a route when all dead idle connections are removed: nothing, if the
route is unused then. -/
def remaining? (s : State) (live : ConnId → Bool) (now : Millis) (route : Route) :
    Option RoutePool :=
  ((s.find? route).map fun p => p.withoutDead live now).filter fun p => !p.isUnused

/-- The number of idle connections that are not dead. -/
def usable (s : State) (live : ConnId → Bool) (now : Millis) : Nat :=
  s.idleCount fun c => c.isReusable live now

/-- The leases alone have reached a cap. -/
def Full (s : State) (settings : PoolSettings) (route : Route) : Prop :=
  settings.maxPerRoute ≤ (s.get route).leased ∨ settings.maxTotal ≤ s.leasedTotal

/-- Both caps are respected. -/
structure WithinCaps (settings : PoolSettings) (s : State) : Prop where
  route : ∀ r, (s.get r).leased + (s.get r).idle.length ≤ settings.maxPerRoute
  total : s.leasedTotal + s.idleTotal ≤ settings.maxTotal

/-- On some route other than that of the lease, the first idle connection has been closed. It had
been idle for at least as long as the first one of any route. -/
def ClosesOldest (s t : State) (live : ConnId → Bool) (now : Millis) (route : Route) : Prop :=
  ∃ other p c rest, other ≠ route ∧ s.remaining? live now other = some p ∧ p.idle = c :: rest ∧
    (∀ r q, s.remaining? live now r = some q → ∀ d ∈ q.idle.head?, c.idleSince ≤ d.idleSince) ∧
    t.find? other = (some { p with idle := rest }).filter (fun q => !q.isUnused) ∧
    ∀ r, r ≠ route → r ≠ other → t.find? r = s.remaining? live now r

/-- What a claim of a lease on `route` comes to. -/
structure Decided (settings : PoolSettings) (live : ConnId → Bool) (now : Millis) (route : Route)
    (s : State) (outcome : Claim) (t : State) : Prop where
  balanced : t.Balanced
  /-- The counts of the whole pool are not touched. -/
  counts : t.created = s.created ∧ t.reused = s.reused ∧ t.closed = s.closed
  /-- A lease that need not wait is entered on its route, and nothing else changes here. -/
  leased : ∀ r, (t.get r).leased = (s.get r).leased + if r = route ∧ outcome ≠ .wait then 1 else 0
  leasedTotal : t.leasedTotal = s.leasedTotal + if outcome = .wait then 0 else 1
  pending : ∀ r, (t.get r).pending = (s.get r).pending
  wait_iff : outcome = .wait ↔ s.Full settings route
  /-- A lease that has to wait has removed the dead connections and done nothing else. -/
  wait : outcome = .wait → ∀ r, t.find? r = s.remaining? live now r
  /-- Otherwise the idle connection that was parked last is taken. -/
  reuse : ¬ s.Full settings route → ∀ older c,
    ((s.get route).withoutDead live now).idle = older ++ [c] →
      outcome = .reuse c ∧
      t.find? route = some { s.get route with
        leased := (s.get route).leased + 1, idle := older } ∧
      ∀ r, r ≠ route → t.find? r = s.remaining? live now r
  /-- Where there is none, the lease connects, and a connection is closed for it only if there is no
  room left. -/
  connect : ¬ s.Full settings route → ((s.get route).withoutDead live now).idle = [] →
    outcome = .connect ∧
    t.find? route = some { (s.remaining? live now route).getD .fresh with
      leased := (s.get route).leased + 1 } ∧
    (s.leasedTotal + s.usable live now ≠ settings.maxTotal →
      ∀ r, r ≠ route → t.find? r = s.remaining? live now r) ∧
    (s.leasedTotal + s.usable live now = settings.maxTotal → s.ClosesOldest t live now route)

variable {settings : PoolSettings} {live : ConnId → Bool} {now : Millis} {route : Route}
  {s t : State}

/-! ## Removing the dead connections -/

/-- An idle connection can be reused exactly if it is open and not expired. -/
theorem isReusable_eq (c : IdleConnection) :
    (live c.conn && !c.isExpired now) = c.isReusable live now :=
  Bool.and_comm ..

/-- Closing expired connections leaves of each entry what is left without its dead ones. -/
theorem find?_closeExpired (hs : s.Keyed) (r : Route) :
    (s.closeExpired live now).2.find? r = s.remaining? live now r := by
  rw [closeExpired, find?_evict hs]
  simp only [isReusable_eq]
  rfl

/-- Closing expired connections leaves of each account what is left without its dead ones. -/
theorem account_closeExpired (hs : s.Keyed) (r : Route) :
    (s.closeExpired live now).2.account r = ((s.get r).withoutDead live now).account := by
  rw [closeExpired, account_evict hs]
  simp only [isReusable_eq]
  rfl

/-- Closing expired connections removes idle connections only. -/
theorem Swept.closeExpired (hs : s.Balanced) (live : ConnId → Bool) (now : Millis) :
    Swept s (s.closeExpired live now).2 :=
  .evict hs live _

/-- After expired connections are closed, those that can be used are left. -/
theorem idleTotal_closeExpired (hs : s.Balanced) (live : ConnId → Bool) (now : Millis) :
    (s.closeExpired live now).2.idleTotal = s.usable live now := by
  have hclean := (Swept.closeExpired hs live now).balanced
  rw [hclean.idle, usable, idleCount]
  apply total_eq_total hs.keyed hclean.keyed rfl rfl
  intro r
  rw [account_closeExpired hs.keyed]
  exact List.countP_eq_length_filter.symm

/-- On a route whose leases have reached a cap, no connection is idle. -/
theorem Full.idle_eq_nil (hfull : s.Full settings route) (hs : s.Balanced)
    (hcaps : s.WithinCaps settings) : (s.get route).idle = [] := by
  have hroute := hcaps.route route
  have htotal := hcaps.total
  have hle : (s.get route).idle.length ≤ s.idleTotal := idle_length_le hs route
  rw [← List.length_eq_zero_iff]
  rcases hfull with hfull | hfull <;> omega

/-- A route with an idle connection that is not dead keeps its entry. -/
theorem remaining?_of_idle (h : ((s.get route).withoutDead live now).idle ≠ []) :
    s.remaining? live now route = some ((s.get route).withoutDead live now) := by
  cases hfind : s.find? route with
  | none => simp [State.get, hfind, RoutePool.withoutDead, RoutePool.fresh] at h
  | some p =>
    have hget : s.get route = p := by rw [State.get, hfind, Option.getD_some]
    have hused : (p.withoutDead live now).isUnused = false := by
      rw [hget] at h
      simp [RoutePool.isUnused, h]
    rw [remaining?, hfind, hget, Option.map_some, Option.filter_some, hused]
    rfl

/-- What is left has been pruned. -/
theorem filter_remaining? (r : Route) :
    (s.remaining? live now r).filter (fun p => !p.isUnused) = s.remaining? live now r := by
  simp [remaining?, Option.filter_filter]

/-! ## The outcomes -/

/-- Among connections that are all usable, the last one is taken. -/
theorem claim_of_concat (hs : s.Balanced) {older : List IdleConnection} {c : IdleConnection}
    (hidle : ((s.get route).withoutDead live now).idle = older ++ [c]) :
    s.claim settings live live now route = (.reuse c,
      ((s.closeExpired live now).2.thin route fun _ => older).addLease route) := by
  have hclean : ((s.closeExpired live now).2.account route).idle = older ++ [c] := by
    rw [account_closeExpired hs.keyed]
    exact hidle
  have husable : c.isReusable live now = true := by
    have hmem : c ∈ ((s.get route).withoutDead live now).idle := by simp [hidle]
    exact (List.mem_filter.1 hmem).2
  rw [claim, reuse_eq, hclean, takeLatest?_concat older husable]

/-- Where nothing can be taken, the caps decide. -/
theorem claim_of_nil (hs : s.Balanced) (hidle : ((s.get route).withoutDead live now).idle = []) :
    s.claim settings live live now route =
      if settings.maxPerRoute ≤ (s.get route).leased then (.wait, (s.closeExpired live now).2)
      else match (s.closeExpired live now).2.makeRoom? settings.maxTotal with
        | none => (.wait, (s.closeExpired live now).2)
        | some roomy => (.connect, roomy.addLease route) := by
  have hswept := Swept.closeExpired hs live now
  have hclean : ((s.closeExpired live now).2.account route).idle = [] := by
    rw [account_closeExpired hs.keyed]
    exact hidle
  have hsame : (s.closeExpired live now).2.thin route (fun _ => []) = (s.closeExpired live now).2 :=
    thin_eq_self hswept.balanced.keyed hclean.symm
  have hleased : ((s.closeExpired live now).2.get route).leased = (s.get route).leased :=
    hswept.leased route
  have hnone : (s.closeExpired live now).2.reuse live now route =
      (none, (s.closeExpired live now).2) := by
    rw [reuse_eq, hclean, takeLatest?_nil, hsame]
  rw [claim, hnone]
  exact if_congr (by rw [hleased]) rfl rfl

/-- A lease whose route, or the pool, is full waits. -/
theorem claim_of_full (hs : s.Balanced) (hcaps : s.WithinCaps settings)
    (hfull : s.Full settings route) (live : ConnId → Bool) (now : Millis) :
    s.claim settings live live now route = (.wait, (s.closeExpired live now).2) := by
  have hidle : ((s.get route).withoutDead live now).idle = [] := by
    rw [RoutePool.withoutDead, hfull.idle_eq_nil hs hcaps, List.filter_nil]
  rw [claim_of_nil hs hidle]
  split
  case isTrue => rfl
  case isFalse hbelow =>
    have htotal : settings.maxTotal ≤ s.leasedTotal := hfull.resolve_left hbelow
    have hswept := Swept.closeExpired hs live now
    have hfewer := hswept.idleTotal_le hs
    have hwithin := hcaps.total
    cases hroom : (s.closeExpired live now).2.makeRoom? settings.maxTotal with
    | none => rfl
    | some roomy =>
      -- there is no idle connection that could make room
      obtain ⟨hroomy, hmore⟩ := makeRoom?_some hswept.balanced hroom
      have hleased := (hswept.trans hroomy).leasedTotal
      omega

/-- Waiting is the right decision where the leases alone have reached a cap. -/
theorem decided_wait (hs : s.Balanced) (hfull : s.Full settings route) :
    Decided settings live now route s .wait (s.closeExpired live now).2 := by
  have hswept := Swept.closeExpired hs live now
  refine
    { balanced := hswept.balanced
      counts := ⟨rfl, rfl, rfl⟩
      leased := ?_
      leasedTotal := hswept.leasedTotal
      pending := hswept.pending
      wait_iff := iff_of_true rfl hfull
      wait := fun _ => find?_closeExpired hs.keyed
      reuse := fun hroom => absurd hfull hroom
      connect := fun hroom => absurd hfull hroom }
  intro r
  rw [if_neg (by simp)]
  exact hswept.leased r

/-- A lease that is entered on swept books, once it is known which entries these have. -/
theorem decided_of_entered {outcome : Claim} {mid : State} (hswept : Swept s mid)
    (hcreated : mid.created = s.created) (hreused : mid.reused = s.reused)
    (hroom : ¬ s.Full settings route) (houtcome : outcome ≠ .wait)
    (hreuse : ∀ older c, ((s.get route).withoutDead live now).idle = older ++ [c] →
      outcome = .reuse c ∧ mid.get route = { s.get route with idle := older } ∧
        ∀ r, r ≠ route → mid.find? r = s.remaining? live now r)
    (hconnect : ((s.get route).withoutDead live now).idle = [] →
      outcome = .connect ∧ mid.get route = (s.remaining? live now route).getD .fresh ∧
        (s.leasedTotal + s.usable live now ≠ settings.maxTotal →
          ∀ r, r ≠ route → mid.find? r = s.remaining? live now r) ∧
        (s.leasedTotal + s.usable live now = settings.maxTotal →
          s.ClosesOldest mid live now route)) :
    Decided settings live now route s outcome (mid.addLease route) := by
  -- entering the lease touches the entry of its own route only
  have hother (r : Route) (hr : r ≠ route) : (mid.addLease route).find? r = mid.find? r := by
    rw [find?_addLease, if_neg hr]
  have hown : (mid.addLease route).find? route =
      some { mid.get route with leased := (mid.get route).leased + 1 } := by
    rw [find?_addLease, if_pos rfl]
  have hleased : (mid.get route).leased = (s.get route).leased := hswept.leased route
  refine
    { balanced := hswept.balanced.addLease route
      counts := ⟨by simp [addLease, hcreated], by simp [addLease, hreused],
        by simp [addLease, hswept.closed]⟩
      leased := ?_
      leasedTotal := ?_
      pending := ?_
      wait_iff := iff_of_false houtcome hroom
      wait := fun h => absurd h houtcome
      reuse := ?_
      connect := ?_ }
  · intro r
    have hmid := hswept.leased r
    have hadd := leased_addLease mid route r
    simp only [houtcome, ne_eq, not_false_eq_true, and_true]
    exact hadd.trans (by rw [hmid]; rfl)
  · rw [if_neg houtcome]
    exact congrArg (· + 1) hswept.leasedTotal
  · intro r
    exact (pending_addLease mid route r).trans (hswept.pending r)
  · intro _ older c hidle
    obtain ⟨heq, hget, hothers⟩ := hreuse older c hidle
    refine ⟨heq, ?_, ?_⟩
    · rw [hown, hget]
    · intro r hr
      rw [hother r hr, hothers r hr]
  · intro _ hidle
    obtain ⟨heq, hget, hsame, hclosed⟩ := hconnect hidle
    refine ⟨heq, ?_, ?_, ?_⟩
    · rw [hown, hleased, hget]
    · intro hroom r hr
      rw [hother r hr, hsame hroom r hr]
    · intro hfull
      obtain ⟨other, p, c, rest, hne, hp, hidle, hleast, hrest, hothers⟩ := hclosed hfull
      refine ⟨other, p, c, rest, hne, hp, hidle, hleast, ?_, ?_⟩
      · rw [hother other hne, hrest]
      · intro r hr hr'
        rw [hother r hr, hothers r hr hr']

/-- With room for the lease, taking the newest connection that can be used is the right decision. -/
theorem decided_reuse (hs : s.Balanced) (hroom : ¬ s.Full settings route)
    {older : List IdleConnection} {c : IdleConnection}
    (hidle : ((s.get route).withoutDead live now).idle = older ++ [c]) :
    Decided settings live now route s (.reuse c)
      (((s.closeExpired live now).2.thin route fun _ => older).addLease route) := by
  have hclosed := Swept.closeExpired hs live now
  have hclean : ((s.closeExpired live now).2.account route).idle = older ++ [c] := by
    rw [account_closeExpired hs.keyed]
    exact hidle
  have hsub : older.Sublist ((s.closeExpired live now).2.account route).idle :=
    hclean ▸ List.sublist_append_left ..
  have hthin := Swept.thin (f := fun _ => older) hsub hclosed.balanced
  apply decided_of_entered (hclosed.trans hthin) rfl rfl hroom (by simp)
  · intro older' c' hidle'
    obtain ⟨rfl, hc⟩ := List.append_inj' (hidle.symm.trans hidle') rfl
    obtain rfl : c = c' := by simpa using hc
    refine ⟨rfl, ?_, ?_⟩
    · have hleft : s.remaining? live now route = some ((s.get route).withoutDead live now) :=
        remaining?_of_idle (by rw [hidle]; simp)
      rw [State.get, find?_thin, if_pos rfl, find?_closeExpired hs.keyed, hleft]
      rfl
    · intro r hr
      rw [find?_thin, if_neg hr, find?_closeExpired hs.keyed]
  · intro hnone
    rw [hnone] at hidle
    simp at hidle

/-- Removing the oldest idle connection of all from swept books, on which the route has none. -/
theorem closesOldest_of_evict (hs : s.Balanced)
    (hidle : ((s.get route).withoutDead live now).idle = [])
    (hroomy : (s.closeExpired live now).2.evictOldest? = some t) :
    s.ClosesOldest t live now route ∧ t.find? route = s.remaining? live now route := by
  have hclean := (Swept.closeExpired hs live now).balanced
  obtain ⟨other, p, c, rest, hp, hlist, hleast, rfl⟩ := evictOldest?_thin hclean hroomy
  have hne : other ≠ route := by
    rintro rfl
    have haccount : (s.closeExpired live now).2.account other =
        ((s.get other).withoutDead live now).account := account_closeExpired hs.keyed other
    rw [account_of_find hp] at haccount
    have hnone : p.idle = [] := (congrArg Account.idle haccount).trans hidle
    simp [hlist] at hnone
  simp only [find?_closeExpired hs.keyed] at hp hleast
  have hkeyed : ((s.closeExpired live now).2.thin other List.tail).Keyed :=
    hclean.keyed.modifyKnown other fun p => { p with idle := p.idle.tail }
  -- removing one connection and pruning touches no entry but one, since the others are pruned
  have hsame (r : Route) (hr : r ≠ other) :
      ((s.closeExpired live now).2.thin other List.tail).prune.find? r =
        s.remaining? live now r := by
    rw [find?_prune hkeyed, find?_thin, if_neg hr, find?_closeExpired hs.keyed, filter_remaining?]
  refine ⟨⟨other, p, c, rest, hne, hp, hlist, hleast, ?_, ?_⟩, hsame route (Ne.symm hne)⟩
  · rw [find?_prune hkeyed, find?_thin, if_pos rfl, find?_closeExpired hs.keyed, hp,
      Option.map_some, hlist, List.tail_cons]
  · intro r _ hr
    exact hsame r hr

/-- With room and nothing to reuse, opening a connection is the right decision. -/
theorem decided_connect (hs : s.Balanced) (hcaps : s.WithinCaps settings)
    (hroom : ¬ s.Full settings route) (hidle : ((s.get route).withoutDead live now).idle = [])
    {roomy : State}
    (hroomy : (s.closeExpired live now).2.makeRoom? settings.maxTotal = some roomy) :
    Decided settings live now route s .connect (roomy.addLease route) := by
  have hclosed := Swept.closeExpired hs live now
  have hswept := hclosed.trans (makeRoom?_some hclosed.balanced hroomy).1
  have hleasedTotal := hclosed.leasedTotal
  have husable := idleTotal_closeExpired hs live now
  have hfewer := hclosed.idleTotal_le hs
  have hwithin := hcaps.total
  have hnoReuse (older : List IdleConnection) (c : IdleConnection) :
      ((s.get route).withoutDead live now).idle ≠ older ++ [c] := by
    rw [hidle]
    simp
  unfold makeRoom? at hroomy
  split at hroomy
  case isTrue hfull =>
    -- all places are taken, so another route gives one up
    obtain ⟨holdest, hown⟩ := closesOldest_of_evict hs hidle hroomy
    obtain ⟨_, _, _, _, -, -, -, hthin⟩ := evictOldest?_thin hclosed.balanced hroomy
    apply decided_of_entered hswept (by rw [hthin]; rfl) (by rw [hthin]; rfl) hroom (by simp)
    · intro older c hlist
      exact absurd hlist (hnoReuse older c)
    · intro _
      refine ⟨rfl, by rw [State.get, hown], ?_, fun _ => holdest⟩
      intro hless
      omega
  case isFalse hless =>
    -- there is a free place, and no other route is touched
    obtain rfl := Option.some.inj hroomy
    apply decided_of_entered hswept rfl rfl hroom (by simp)
    · intro older c hlist
      exact absurd hlist (hnoReuse older c)
    · intro _
      refine ⟨rfl, by rw [State.get, find?_closeExpired hs.keyed], ?_, ?_⟩
      · intro _ r _
        exact find?_closeExpired hs.keyed r
      · intro hfull
        omega

/-- On balanced books that respect the caps, as long as no connection is closed meanwhile, a claim
removes the dead idle connections of all routes. Then it has to wait if the leases of its route or of
all routes have reached their cap, takes the idle connection of its route that was parked last if
there is one, and connects otherwise, for which it closes a connection of another route only if there
is no room left. -/
theorem claim_decided {settings : PoolSettings} {s : State} (hs : s.Balanced)
    (hcaps : s.WithinCaps settings) (live : ConnId → Bool) (now : Millis) (route : Route) :
    Decided settings live now route s (s.claim settings live live now route).1
      (s.claim settings live live now route).2 := by
  by_cases hfull : s.Full settings route
  · rw [claim_of_full hs hcaps hfull]
    exact decided_wait hs hfull
  · rcases List.eq_nil_or_concat ((s.get route).withoutDead live now).idle with hidle | hidle
    · have hbelow : ¬ settings.maxPerRoute ≤ (s.get route).leased := fun h => hfull (.inl h)
      rw [claim_of_nil hs hidle, if_neg hbelow]
      cases hroom : (s.closeExpired live now).2.makeRoom? settings.maxTotal with
      | none =>
        have hswept := Swept.closeExpired hs live now
        have hleased := makeRoom?_none hswept.balanced hroom
        rw [hswept.leasedTotal] at hleased
        exact absurd (.inr hleased) hfull
      | some roomy => exact decided_connect hs hcaps hfull hidle hroom
    · obtain ⟨older, c, hidle⟩ := hidle
      rw [List.concat_eq_append] at hidle
      rw [claim_of_concat hs hidle]
      exact decided_reuse hs hfull hidle

/-- The caps that a reachable pool respects are those that a claim relies on. -/
theorem withinCaps_of_reachable {s : System} (h : System.Reachable settings s) :
    s.books.WithinCaps settings := by
  rw [← h.settings_eq]
  exact ⟨h.capped.route, h.capped.total⟩

/-- Two routes have an idle connection each, and there are two places: a lease on a third route closes
the connection that has been idle longer. -/
theorem claim_decided_closes_oldest :
    let settings : PoolSettings := ⟨1, 2, .standard⟩
    let route (port : UInt16) : Route := ⟨.http, ['h'], port⟩
    let s := (System.init settings).run
      [.start (route 81) none, .claim 0 [], .connected 0, .start (route 80) none, .claim 1 [],
        .connected 1, .release 1 0, .tick 5, .release 0 0, .tick 5]
    let t := (s.books.claim settings s.live s.live s.now (route 82)).2
    s.books.Balanced ∧ s.books.WithinCaps settings ∧ ¬ s.books.Full settings (route 82) ∧
      s.books.ClosesOldest t s.live s.now (route 82) ∧ t.routeList = [route 81, route 82] := by
  intro settings route s t
  have hreachable : System.Reachable settings s := System.reaches_run _ _
  have hbooks : s.books.Balanced := hreachable.accounted.balanced
  have hcaps : s.books.WithinCaps settings := withinCaps_of_reachable hreachable
  have hroom : ¬ s.books.Full settings (route 82) := by
    unfold Full
    decide
  have hdecided := claim_decided hbooks hcaps s.live s.now (route 82)
  have hconnect := hdecided.connect hroom (by decide)
  exact ⟨hbooks, hcaps, hroom, hconnect.2.2.2 (by decide), by decide⟩

end State
end PooledHttp.Pool
