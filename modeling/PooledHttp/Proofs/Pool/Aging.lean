import PooledHttp.Proofs.Pool.Clock
import PooledHttp.Proofs.Pool.Deciding

/-!
# The connection that has been idle longest

To make room, a claim compares the first idle connections of all routes and closes the one that has
been idle longest. It does not look at the others, and need not: as long as the clock is not set
back, each route lists its idle connections in the order in which they became idle
(`State.Aged`). A connection that is handed back is listed last and is idle from now on, and nothing
else adds to a list or changes its order (`System.idle_act_sublist`).

When a claim comes to make room it has found no idle connection of its own route to take, and has
emptied the list of that route. So the connection that is closed is always one of another route.
-/

set_option autoImplicit false

namespace PooledHttp.Pool

namespace State

variable {s t : State} {route : Route} {now later : Millis}

/-- Each route lists its idle connections in the order in which they became idle, none of them later
than now. -/
structure Aged (s : State) (now : Millis) : Prop where
  ordered : ∀ r, (s.account r).idle.Pairwise fun c d => c.idleSince ≤ d.idleSince
  past : ∀ r, ∀ c ∈ (s.account r).idle, c.idleSince ≤ now

/-- Books without entries are in order at any time. -/
theorem aged_empty (now : Millis) : State.empty.Aged now :=
  ⟨fun _ => .nil, fun _ _ hc => nomatch hc⟩

/-- Books stay in order if at most connections that become idle now are put behind the others. -/
theorem Aged.of_sublist (h : s.Aged now) {new : List IdleConnection}
    (hnew : ∀ c ∈ new, c.idleSince = now) (hlater : now ≤ later)
    (hidle : ∀ r, (t.account r).idle.Sublist ((s.account r).idle ++ new)) : t.Aged later := by
  have hordered (r : Route) :
      ((s.account r).idle ++ new).Pairwise fun c d => c.idleSince ≤ d.idleSince := by
    rw [List.pairwise_append]
    refine ⟨h.ordered r, List.pairwise_of_forall_mem_list ?_, ?_⟩
    · intro c hc d hd
      rw [hnew c hc, hnew d hd]
    · intro c hc d hd
      rw [hnew d hd]
      exact h.past r c hc
  refine ⟨fun r => (hordered r).sublist (hidle r), ?_⟩
  intro r c hc
  rcases List.mem_append.1 ((hidle r).subset hc) with hold | hparked
  · exact (h.past r c hold).trans hlater
  · exact (hnew c hparked).trans_le hlater

/-- Removing idle connections leaves the others in order. -/
theorem Aged.swept (h : s.Aged now) (hswept : Swept s t) : t.Aged now := by
  have hidle (r : Route) : (t.account r).idle.Sublist ((s.account r).idle ++ []) := by
    rw [List.append_nil]
    exact hswept.idle r
  refine h.of_sublist ?_ le_rfl hidle
  intro c hc
  cases hc

/-- To make room, the first idle connection of a route is closed. It has been idle for as long as
the first one of any other route. -/
theorem account_evictOldest (hs : s.Balanced) (hevict : s.evictOldest? = some t) :
    ∃ other c rest, (s.account other).idle = c :: rest ∧
      (∀ r, ∀ d ∈ (s.account r).idle.head?, c.idleSince ≤ d.idleSince) ∧
      ∀ r, t.account r = { s.account r with
        idle := if r = other then rest else (s.account r).idle } := by
  obtain ⟨other, p, c, rest, hp, hidle, hleast, rfl⟩ := evictOldest?_thin hs hevict
  have hown : (s.account other).idle = c :: rest := by
    rw [account_of_find hp]
    exact hidle
  refine ⟨other, c, rest, hown, ?_, ?_⟩
  · intro r d hd
    cases hfind : s.find? r with
    | none =>
      rw [account, State.get, hfind] at hd
      cases hd
    | some q =>
      rw [account_of_find hfind] at hd
      exact hleast r q hfind d hd
  · intro r
    have hkeyed : (s.thin other List.tail).Keyed :=
      hs.keyed.modifyKnown other fun p => { p with idle := p.idle.tail }
    rw [account_prune hkeyed, account_thin (List.tail_sublist _)]
    split
    case isTrue hr => rw [hr, hown, List.tail_cons]
    case isFalse => rfl

/-- Where a list is in order, what has been idle for as long as its first connection has been idle
for as long as any. -/
theorem le_of_head {idle : List IdleConnection} {since : Millis}
    (hordered : idle.Pairwise fun c d => c.idleSince ≤ d.idleSince)
    (hfirst : ∀ d ∈ idle.head?, since ≤ d.idleSince) : ∀ d ∈ idle, since ≤ d.idleSince := by
  cases idle with
  | nil => nofun
  | cons first rest =>
    have hle : since ≤ first.idleSince := hfirst first rfl
    rw [List.pairwise_cons] at hordered
    rw [List.forall_mem_cons]
    exact ⟨hle, fun d hd => hle.trans (hordered.1 d hd)⟩

end State

namespace System

variable {s t : System} {settings : PoolSettings}

/-- `s` can come about in a pool with these settings while the clock is never set back. -/
def Steady (settings : PoolSettings) (s : System) : Prop :=
  Relation.ReflTransGen (fun s t => Move s t ∧ s.now ≤ t.now) (.init settings) s

/-- A state of a run with a steady clock is one of a run. -/
theorem Steady.reachable (h : Steady settings s) : Reachable settings s := by
  induction h with
  | refl => exact .refl
  | tail _ hlast ih => exact ih.tail hlast.1

/-- Events do not set the clock back. -/
theorem Steady.run (h : Steady settings s) (events : List Event) :
    Steady settings (s.run events) := by
  refine List.foldlRecOn (motive := Steady settings) events step h ?_
  intro s hs e _
  exact hs.tail ⟨.event s e, (keepsTime_step s e).le⟩

/-- Whatever happens, no list of idle connections changes its order, and only a connection that is
idle from now on is added, at the end. -/
theorem idle_act_sublist (hacc : s.Accounted) (a : Act) : ∃ new : List IdleConnection,
    (∀ c ∈ new, c.idleSince = s.now) ∧
      ∀ r, ((s.act a).books.account r).idle.Sublist ((s.books.account r).idle ++ new) := by
  have hbooks := hacc.balanced
  have hprogress := progress hacc a
  generalize s.act a = t at hprogress
  cases hprogress with
  | @release l lease held hl hphase keepAlive =>
    refine ⟨[_], ?_, idle_release_sublist hbooks held keepAlive⟩
    intro c hc
    rw [List.mem_singleton.1 hc]
  | ready hl hphase =>
    refine ⟨[], nofun, fun r => ?_⟩
    rw [books_ready, State.account_countReused, List.append_nil]
  | connected hl hphase =>
    refine ⟨[], nofun, fun r => ?_⟩
    rw [books_connected, State.account_countCreated, List.append_nil]
  | claim hl hphase hopen hconns hclaim =>
    refine ⟨[], nofun, fun r => ?_⟩
    have hswept := State.Swept.closeExpired hbooks s.live s.now
    rw [books_setPhase, idle_record, List.append_nil]
    exact (State.idle_claim_sublist hbooks hclaim r).trans (hswept.idle r)
  | quiet hquiet =>
    refine ⟨[], nofun, fun r => ?_⟩
    rw [List.append_nil]
    exact hquiet.idle r

/-- While the clock is not set back, the lists of idle connections stay in order. -/
theorem Steady.aged (h : Steady settings s) : s.books.Aged s.now := by
  induction h with
  | refl => exact State.aged_empty _
  | tail hbefore hlast ih =>
    obtain ⟨hmove, hle⟩ := hlast
    obtain ⟨a, rfl⟩ := hmove.exists_act
    have hacc := (Steady.reachable hbefore).accounted
    obtain ⟨new, hnew, hidle⟩ := idle_act_sublist hacc a
    exact ih.of_sublist hnew hle hidle

/-- While the clock is not set back, each route lists its idle connections in the order in which
they became idle. When a claim, having taken nothing and being under the cap of its route, finds the
pool full and some connection idle, it closes exactly one connection: the one of all routes that has
been idle longest, which is not one of its own route. -/
theorem closes_longest_idle (h : Steady settings s) :
    (∀ r, (s.books.get r).idle.Pairwise fun c d => c.idleSince ≤ d.idleSince) ∧
    ∀ live still now route swept,
      (s.books.closeExpired live now).2.reuse still now route = (none, swept) →
      (swept.get route).leased < settings.maxPerRoute →
      settings.maxTotal ≤ swept.leasedTotal + swept.idleTotal → 0 < swept.idleTotal →
      ∃ roomy other c rest, swept.evictOldest? = some roomy ∧
        s.books.claim settings live still now route = (.connect, roomy.addLease route) ∧
        other ≠ route ∧ (swept.get other).idle = c :: rest ∧
        (∀ r, ∀ d ∈ (swept.get r).idle, c.idleSince ≤ d.idleSince) ∧
        (∀ r, (roomy.get r).idle = if r = other then rest else (swept.get r).idle) ∧
        (∀ r, (roomy.get r).leased = (swept.get r).leased ∧
          (roomy.get r).pending = (swept.get r).pending) ∧
        roomy.leasedTotal = swept.leasedTotal ∧ roomy.idleTotal + 1 = swept.idleTotal := by
  have hbooks := h.reachable.accounted.balanced
  refine ⟨h.aged.ordered, ?_⟩
  intro live still now route swept hreuse hbelow hfull hidle
  obtain ⟨hswept, hnone⟩ := State.claim_swept hbooks hreuse
  cases hevict : swept.evictOldest? with
  | none =>
    have hzero := State.evictOldest?_none hswept.balanced hevict
    omega
  | some roomy =>
    obtain ⟨other, c, rest, hown, hfirst, haccount⟩ :=
      State.account_evictOldest hswept.balanced hevict
    -- lists in order begin with their longest idle connection, and those have been compared
    have hleast (r : Route) : ∀ d ∈ (swept.account r).idle, c.idleSince ≤ d.idleSince :=
      State.le_of_head ((h.aged.swept hswept).ordered r) (hfirst r)
    obtain ⟨hroomy, hone⟩ := State.evictOldest?_some hswept.balanced hevict
    have hclaim : s.books.claim settings live still now route =
        (.connect, roomy.addLease route) := by
      rw [State.claim, hreuse]
      simp only [State.makeRoom?]
      rw [if_neg (Nat.not_le_of_lt hbelow), if_pos hfull, hevict]
    have hne : other ≠ route := by
      rintro rfl
      rw [hnone] at hown
      cases hown
    refine ⟨roomy, other, c, rest, rfl, hclaim, hne, hown, hleast, ?_, ?_, hroomy.leasedTotal, hone⟩
    · intro r
      exact congrArg Account.idle (haccount r)
    · intro r
      exact ⟨hroomy.leased r, hroomy.pending r⟩

/-- There are three places. The connection that was opened second is handed back first, that of
another route next, and one of the first route last: a lease on a third route closes the one that
was handed back first. -/
theorem closes_longest_idle_third_route :
    let settings : PoolSettings := ⟨2, 3, .standard⟩
    let route (port : UInt16) : Route := ⟨.http, ['h'], port⟩
    let s := (init settings).run
      [.start (route 80) none, .claim 0 [], .connected 0, .start (route 80) none, .claim 1 [],
        .connected 1, .start (route 81) none, .claim 2 [], .connected 2, .release 1 0, .tick 5,
        .release 2 0, .tick 5, .release 0 0]
    let swept := (s.books.closeExpired s.live s.now).2
    let t := (s.books.claim settings s.live s.live s.now (route 82)).2
    Steady settings s ∧ ((s.books.get (route 80)).idle.map (·.idleSince)) = [0, 10] ∧
      (∃ other c rest, other ≠ route 82 ∧ (swept.get other).idle = c :: rest ∧
        ∀ r, ∀ d ∈ (swept.get r).idle, c.idleSince ≤ d.idleSince) ∧
      ((t.get (route 80)).idle.map (·.idleSince)) = [10] ∧
      ((t.get (route 81)).idle.map (·.idleSince)) = [5] := by
  intro settings route s swept t
  have hsteady : Steady settings s := Steady.run .refl _
  obtain ⟨roomy, other, c, rest, -, -, hne, hlist, hleast, -⟩ :=
    (closes_longest_idle hsteady).2 s.live s.live s.now (route 82) swept (by decide) (by decide)
      (by decide) (by decide)
  exact ⟨hsteady, by decide, ⟨other, c, rest, hne, hlist, hleast⟩, by decide, by decide⟩

end System
end PooledHttp.Pool
