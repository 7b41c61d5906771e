import PooledHttp.Proofs.Pool.Aging
import PooledHttp.Proofs.Pool.Alone
import PooledHttp.Proofs.Pool.Forgetting

/-!
# A lease that fails leaves nothing behind

Before a lease fails it may have been entered in the books and waited, several times over, and it
may have made an entry for its route, taken idle connections that turned out closed, and closed one
of another route to make room. All of this but the loss of idle connections is undone when it fails.

While the lease is alone with the pool, the books are those that it has found, beside which it
counts itself (`State.Beside`). Its passes over the idle connections (`System.passes`) and the
connections that turned out closed (`System.discards`) tell which idle connections are gone. One
more connection is closed only if the pool is full, and then no other is gone: had the lease removed
any before, the pool would not be full.
-/

set_option autoImplicit false

namespace PooledHttp.Pool

/-- No pass has removed the connection among the dead ones. -/
def Spared (passes : List Pass) (k : IdleConnection) : Bool :=
  passes.all fun p => k.isReusable p.live p.now

/-- At one of the passes the connection was expired or closed, or it turned out closed when it had
been taken. -/
def Lost (passes : List Pass) (discarded : List IdleConnection) (k : IdleConnection) : Prop :=
  (∃ p ∈ passes, k.isReusable p.live p.now = false ∨ k.isReusable p.still p.now = false) ∨
    k ∈ discarded

/-- What one more pass spares of the idle connections is what all passes have spared. -/
theorem filter_spared (passes : List Pass) (p : Pass) (idle : List IdleConnection) :
    (idle.filter (Spared passes)).filter (fun k => k.isReusable p.live p.now) =
      idle.filter (Spared (passes ++ [p])) := by
  rw [List.filter_filter]
  apply List.filter_congr
  intro k _
  simp [Spared, Bool.and_comm]

section Lost

variable {passes : List Pass} {discarded : List IdleConnection} {k : IdleConnection}

/-- What is lost stays lost at one more pass. -/
theorem Lost.pass (h : Lost passes discarded k) (p : Pass) : Lost (passes ++ [p]) discarded k := by
  rcases h with ⟨q, hq, hdead⟩ | hmem
  · exact .inl ⟨q, List.mem_append_left _ hq, hdead⟩
  · exact .inr hmem

/-- What is lost stays lost when more is discarded. -/
theorem Lost.discard (h : Lost passes discarded k) (more : List IdleConnection) :
    Lost passes (discarded ++ more) k :=
  h.imp_right (List.mem_append_left _)

end Lost

namespace State

variable {s t u : State} {route : Route} {places waits : Nat}

/-! ## Beside what was there -/

/-- `t` is `s` with so many places taken on the route and so many waits entered, and perhaps with
fewer idle connections. -/
structure Beside (s : State) (route : Route) (places waits : Nat) (t : State) : Prop where
  closed : t.closed = s.closed
  created : t.created = s.created
  reused : t.reused = s.reused
  leased : ∀ r, (t.account r).leased = (s.account r).leased + if r = route then places else 0
  pending : ∀ r, (t.account r).pending = (s.account r).pending + if r = route then waits else 0
  idle : ∀ r, (t.account r).idle.Sublist (s.account r).idle
  /-- An entry has kept its counts, unless nothing is left of what it was made for before. -/
  entry : ∀ r p, t.find? r = some p →
    (∃ q, s.find? r = some q ∧ q.created = p.created ∧ q.reused = p.reused) ∨
      (s.account r).leased = 0 ∧ (s.account r).pending = 0 ∧ (t.account r).idle = []

/-- Books stand beside themselves with no place taken and no wait entered. -/
theorem Beside.refl (s : State) (route : Route) : s.Beside route 0 0 s where
  closed := rfl
  created := rfl
  reused := rfl
  leased := by simp
  pending := by simp
  idle _ := List.Sublist.refl _
  entry _ p hp := .inl ⟨p, hp, rfl, rfl⟩

/-- An operation that makes no entry. -/
theorem Beside.of_retains (h : s.Beside route places waits t) (hretains : Retains t u)
    (hclosed : u.closed = t.closed) {places' waits' : Nat}
    (hleased : ∀ r, (u.account r).leased + (if r = route then places else 0) =
      (t.account r).leased + if r = route then places' else 0)
    (hpending : ∀ r, (u.account r).pending + (if r = route then waits else 0) =
      (t.account r).pending + if r = route then waits' else 0)
    (hidle : ∀ r, (u.account r).idle.Sublist (t.account r).idle) :
    s.Beside route places' waits' u where
  closed := hclosed.trans h.closed
  created := hretains.created.trans h.created
  reused := hretains.reused.trans h.reused
  leased r := by
    have hbefore := h.leased r
    have hafter := hleased r
    omega
  pending r := by
    have hbefore := h.pending r
    have hafter := hpending r
    omega
  idle r := (hidle r).trans (h.idle r)
  entry r p hp := by
    obtain ⟨q, hq, hcreated, hreused⟩ := hretains.entry r p hp
    rcases h.entry r q hq with ⟨q', hq', hcreated', hreused'⟩ | ⟨hleased, hpending, hnone⟩
    · exact .inl ⟨q', hq', hcreated'.trans hcreated, hreused'.trans hreused⟩
    · exact .inr ⟨hleased, hpending, List.sublist_nil.1 (hnone ▸ hidle r)⟩

/-- Removing idle connections takes no place and enters no wait. -/
theorem Beside.sweep (h : s.Beside route places waits t) (hretains : Retains t u)
    (hswept : Swept t u) : s.Beside route places waits u := by
  refine h.of_retains hretains hswept.closed (fun r => ?_) (fun r => ?_) hswept.idle
  · rw [hswept.leased r]
  · rw [hswept.pending r]

/-- An operation that makes an entry if the route has none. -/
theorem Beside.entry_modify (h : s.Beside route 0 0 t) {f : RoutePool → RoutePool}
    (hf : ∀ p, (f p).created = p.created ∧ (f p).reused = p.reused)
    (hfind : ∀ r, u.find? r = if r = route then some (f (t.get route)) else t.find? r)
    (hidle : ∀ r, (u.account r).idle = (t.account r).idle) (r : Route) (p : RoutePool)
    (hp : u.find? r = some p) :
    (∃ q, s.find? r = some q ∧ q.created = p.created ∧ q.reused = p.reused) ∨
      (s.account r).leased = 0 ∧ (s.account r).pending = 0 ∧ (u.account r).idle = [] := by
  rw [hidle]
  rw [hfind] at hp
  split at hp
  case isFalse => exact h.entry r p hp
  case isTrue hr =>
    subst hr
    obtain rfl := Option.some.inj hp
    obtain ⟨hcreated, hreused⟩ := hf (t.get r)
    rw [hcreated, hreused]
    cases hq : t.find? r with
    | some q =>
      rw [State.get, hq, Option.getD_some]
      exact h.entry r q hq
    | none =>
      have hblank : t.account r = .blank := by rw [account, State.get, hq]; rfl
      have hleased := h.leased r
      have hpending := h.pending r
      rw [hblank] at hleased hpending ⊢
      simp only [Account.blank] at hleased hpending ⊢
      exact .inr ⟨by omega, by omega, trivial⟩

/-- Adding a lease takes a place. -/
theorem Beside.addLease (h : s.Beside route 0 0 t) : s.Beside route 1 0 (t.addLease route) where
  closed := (closed_modify ..).trans h.closed
  created := (created_modify ..).trans h.created
  reused := (reused_modify ..).trans h.reused
  leased r := by
    rw [leased_addLease, h.leased]
    simp
  pending r := by rw [pending_addLease, h.pending]
  idle r := by
    rw [idle_addLease]
    exact h.idle r
  entry := h.entry_modify (f := fun p => { p with leased := p.leased + 1 }) (fun _ => ⟨rfl, rfl⟩)
    (find?_addLease t route) (idle_addLease t route)

/-- Adding a wait enters it. -/
theorem Beside.addPending (h : s.Beside route 0 0 t) : s.Beside route 0 1 (t.addPending route) where
  closed := (closed_modify ..).trans h.closed
  created := (created_modify ..).trans h.created
  reused := (reused_modify ..).trans h.reused
  leased r := by rw [leased_addPending, h.leased]
  pending r := by
    have hbefore := h.pending r
    rw [account_addPending]
    split
    case isTrue hr =>
      subst hr
      simp only [if_true] at hbefore ⊢
      omega
    case isFalse hr => simpa [hr] using hbefore
  idle r := by
    rw [idle_addPending]
    exact h.idle r
  entry := h.entry_modify (f := fun p => { p with pending := p.pending + 1 }) (fun _ => ⟨rfl, rfl⟩)
    (find?_modify t route fun p => { p with pending := p.pending + 1 }) (idle_addPending route)

/-- What a lease that ends without parking its connection leaves idle. -/
theorem idle_finishLease_none (ht : t.Keyed) (live : ConnId → Bool) (r : Route) :
    ((t.finishLease live route none).account r).idle = (t.account r).idle := by
  rw [account_finishLease live route none ht]
  apply keep_of_update Account.idle
  simp [kept]

/-- Ending a lease without its connection gives back the place. -/
theorem Beside.finishLease (h : s.Beside route 1 0 t) (ht : t.Keyed) (live : ConnId → Bool) :
    s.Beside route 0 0 (t.finishLease live route none) := by
  have hleased : (t.account route).leased = (s.account route).leased + 1 := by
    rw [h.leased, if_pos rfl]
  have hknown : (t.find? route).isSome := find?_isSome_of_leased (by omega)
  refine h.of_retains (.finishLease ht hknown live none) (closed_finishLease ..) (fun r => ?_)
    (fun r => ?_) fun r => ?_
  · rw [account_finishLease live route none ht]
    split
    case isTrue hr =>
      subst hr
      simp only
      omega
    case isFalse => rfl
  · rw [pending_finishLease live route none ht]
  · rw [idle_finishLease_none ht]

/-- Taking a wait off leaves none entered. -/
theorem Beside.removePending (h : s.Beside route 0 1 t) (ht : t.Keyed) :
    s.Beside route 0 0 (t.removePending route) := by
  refine h.of_retains (.removePending ht route) rfl (fun r => ?_) (fun r => ?_) fun r => ?_
  · rw [leased_removePending route ht]
  · have hpending := h.pending route
    rw [if_pos rfl] at hpending
    rw [account_removePending route ht]
    split
    case isTrue hr =>
      subst hr
      simp only
      omega
    case isFalse => rfl
  · rw [idle_removePending route ht]

/-- The order of the entries does not matter. -/
theorem Beside.reorder (h : s.Beside route places waits t) (ht : t.Keyed)
    {routes : List (Route × RoutePool)} (hperm : t.routes.Perm routes) :
    s.Beside route places waits { t with routes := routes } := by
  have haccount := account_reorder ht hperm
  refine h.of_retains (.reorder ht hperm) rfl (fun r => ?_) (fun r => ?_) fun r => ?_
  · rw [haccount]
  · rw [haccount]
  · rw [haccount]

/-- The total counts the places that are taken. -/
theorem Beside.leasedTotal (h : s.Beside route 0 0 t) (hs : s.Balanced) (ht : t.Balanced) :
    t.leasedTotal = s.leasedTotal := by
  rw [ht.leased, hs.leased]
  apply total_congr hs.keyed ht.keyed rfl
  intro r
  simpa using h.leased r

/-- Where nothing is left unused, the entries are those that were there, without the idle
connections that are gone; those that have become unused are forgotten. -/
theorem Beside.find?_eq (h : s.Beside route 0 0 t) (ht : t.Tidy) (r : Route) : t.find? r =
    ((s.find? r).map fun p => { p with idle := (t.get r).idle }).filter fun p => !p.isUnused := by
  have hleased : (t.account r).leased = (s.account r).leased := by simpa using h.leased r
  have hpending : (t.account r).pending = (s.account r).pending := by simpa using h.pending r
  cases hp : t.find? r with
  | none =>
    have hget : t.get r = .fresh := by rw [State.get, hp, Option.getD_none]
    cases hq : s.find? r with
    | none => rfl
    | some q =>
      rw [account, hget, account_of_find hq] at hleased hpending
      -- an entry that is gone had nothing leased and nobody waiting
      have hunused : ({ q with idle := [] } : RoutePool).isUnused = true := by
        simp only [RoutePool.account, RoutePool.fresh] at hleased hpending
        simp [RoutePool.isUnused, ← hleased, ← hpending]
      rw [hget, Option.map_some, Option.filter_some]
      simp [RoutePool.fresh, hunused]
  | some p =>
    have hget : t.get r = p := by rw [State.get, hp, Option.getD_some]
    have hlisted : r ∈ t.routeList := by
      by_contra hunlisted
      rw [find?_eq_none_iff.2 hunlisted] at hp
      cases hp
    have huse : t.account r ≠ .blank := inUse_iff.1 (ht r hlisted)
    have hused : p.isUnused = false := by
      rw [Bool.eq_false_iff]
      intro hunused
      rw [account_of_find hp] at huse
      exact huse ((RoutePool.isUnused_iff p).1 hunused)
    rcases h.entry r p hp with ⟨q, hq, hcreated, hreused⟩ | ⟨hnone, hnobody, hidle⟩
    · rw [account_of_find hp, account_of_find hq] at hleased hpending
      have hsame : { q with idle := p.idle } = p := by
        obtain ⟨leased, idle, pending, created, reused⟩ := p
        simp only [RoutePool.account] at hleased hpending hcreated hreused
        simp only [hleased, hpending, hcreated, hreused]
      rw [hget, hq, Option.map_some, hsame, Option.filter_some, hused]
      rfl
    · -- an entry that was made for the lease alone is unused
      have hblank : t.account r = .blank := by
        calc t.account r
            = ⟨(t.account r).leased, (t.account r).idle, (t.account r).pending⟩ := rfl
          _ = .blank := by rw [hleased, hnone, hidle, hpending, hnobody, Account.blank]
      exact absurd hblank huse

/-! ## Idle connections -/

/-- Where no idle connection is missing from the total, none is missing from any list. -/
theorem idle_eq_of_idleTotal (hs : s.Balanced) (ht : t.Balanced)
    (hidle : ∀ r, (t.account r).idle.Sublist (s.account r).idle) (hle : s.idleTotal ≤ t.idleTotal)
    (r : Route) : (t.account r).idle = (s.account r).idle := by
  let known := insert r (s.routes.map Prod.fst ++ t.routes.map Prod.fst).toFinset
  rw [hs.idle, ht.idle, total_eq_sum hs.keyed rfl known (by simp +contextual [known]),
    total_eq_sum ht.keyed rfl known (by simp +contextual [known])] at hle
  have hlength : ∀ r ∈ known, (t.account r).idle.length ≤ (s.account r).idle.length :=
    fun r _ => (hidle r).length_le
  have hsame := (Finset.sum_eq_sum_iff_of_le hlength).1 ((Finset.sum_le_sum hlength).antisymm hle)
  exact (hidle r).eq_of_length (hsame r (Finset.mem_insert_self _ _))

/-- One idle connection is gone, the first one of a route other than that of the lease. It had been
idle for as long as the first one of any route, and for as long as any if the lists are in order. -/
def ClosesFirst (s t : State) (route : Route) : Prop :=
  ∃ other c rest, other ≠ route ∧ (s.get other).idle = c :: rest ∧
    (∀ r, ∀ d ∈ (s.get r).idle.head?, c.idleSince ≤ d.idleSince) ∧
    ((∀ r, (s.get r).idle.Pairwise fun c d => c.idleSince ≤ d.idleSince) →
      ∀ r, ∀ d ∈ (s.get r).idle, c.idleSince ≤ d.idleSince) ∧
    ∀ r, (t.get r).idle = if r = other then rest else (s.get r).idle

/-- Which connection is gone can be told from the idle connections alone. -/
theorem ClosesFirst.congr (h : ClosesFirst s t route)
    (hidle : ∀ r, (u.account r).idle = (t.account r).idle) : ClosesFirst s u route := by
  obtain ⟨other, c, rest, hne, hlist, hfirst, hleast, hrest⟩ := h
  exact ⟨other, c, rest, hne, hlist, hfirst, hleast, fun r => (hidle r).trans (hrest r)⟩

/-- Making room where no idle connection has been lost before. -/
theorem closesFirst_of_evict (ht : t.Balanced)
    (hsame : ∀ r, (t.account r).idle = (s.account r).idle) (hnone : (t.account route).idle = [])
    (hevict : t.evictOldest? = some u) :
    ClosesFirst s u route := by
  obtain ⟨other, c, rest, hlist, hfirst, haccount⟩ := account_evictOldest ht hevict
  have hne : other ≠ route := by
    rintro rfl
    rw [hnone] at hlist
    cases hlist
  simp only [hsame] at hlist hfirst haccount
  refine ⟨other, c, rest, hne, hlist, hfirst, ?_, ?_⟩
  · intro hordered r
    exact le_of_head (hordered r) (hfirst r)
  · intro r
    exact congrArg Account.idle (haccount r)

/-! ## A lease that has not got a connection yet -/

/-- How the books stand to those that a lease has found, when it has made these passes and discarded
these connections. -/
structure Trying (was : State) (maxTotal : Nat) (route : Route) (passes : List Pass)
    (discarded : List IdleConnection) (phase : Phase) (books : State) : Prop where
  beside : was.Beside route (if phase.hasPlace then 1 else 0) (if phase.isParked then 1 else 0)
    books
  own : ∀ k ∈ (was.account route).idle,
    k ∈ (books.account route).idle ∨ phase = .readying k ∨ Lost passes discarded k
  /-- The lease stops looking for an idle connection when there is none. -/
  emptied : phase = .claiming ∨ (∃ c, phase = .readying c) ∨ (books.account route).idle = []
  others : (∀ r, r ≠ route → (books.account r).idle = (was.account r).idle.filter (Spared passes)) ∨
    (phase = .connecting ∨ ∃ e, phase = .ended (.refused e)) ∧
      was.leasedTotal + was.idleTotal = maxTotal ∧ ClosesFirst was books route

variable {was books : State} {maxTotal : Nat} {passes : List Pass} {discarded : List IdleConnection}
  {phase : Phase}

/-- A lease that begins has made no pass and discarded nothing. -/
theorem trying_refl (was : State) (maxTotal : Nat) (route : Route) :
    Trying was maxTotal route [] [] .claiming was where
  beside := .refl was route
  own _ hk := .inl hk
  emptied := .inl rfl
  others := .inl fun _ _ => (List.filter_eq_self.2 fun _ _ => rfl).symm

/-- The lease goes on without losing an idle connection but those that it discards. -/
theorem Trying.next (h : Trying was maxTotal route passes discarded phase books) {next : Phase}
    {more : List IdleConnection}
    (hbeside : was.Beside route (if next.hasPlace then 1 else 0) (if next.isParked then 1 else 0) t)
    (hidle : ∀ r, (t.account r).idle = (books.account r).idle)
    (hready : ∀ k, phase = .readying k → next = .readying k ∨ k ∈ more)
    (hemptied : next = .claiming ∨ (∃ c, next = .readying c) ∨ (books.account route).idle = [])
    (htried : phase = .connecting ∨ (∃ e, phase = .ended (.refused e)) →
      next = .connecting ∨ ∃ e, next = .ended (.refused e)) :
    Trying was maxTotal route passes (discarded ++ more) next t where
  beside := hbeside
  own k hk := by
    rw [hidle]
    rcases h.own k hk with hstays | htaken | hlost
    · exact .inl hstays
    · rcases hready k htaken with hstill | hmore
      · exact .inr (.inl hstill)
      · exact .inr (.inr (.inr (List.mem_append_right _ hmore)))
    · exact .inr (.inr (hlost.discard more))
  emptied := by rwa [hidle]
  others := by
    rcases h.others with hspared | ⟨hphase, hfull, hcloses⟩
    · exact .inl fun r hr => (hidle r).trans (hspared r hr)
    · exact .inr ⟨htried hphase, hfull, hcloses.congr hidle⟩

section Claim

variable {settings : PoolSettings} {live still : ConnId → Bool} {now : Millis} {outcome : Claim}

/-- What is left when the dead connections have been removed and the lease has looked for one to
take. -/
theorem Trying.sweep (h : Trying was maxTotal route passes discarded .claiming books)
    (hbooks : books.Balanced) (live still : ConnId → Bool) (now : Millis)
    {left gone : List IdleConnection}
    (hsplit : ((books.closeExpired live now).2.account route).idle = left ++ gone) :
    let mid := (books.closeExpired live now).2.thin route fun _ => left
    mid.Balanced ∧ was.Beside route 0 0 mid ∧ (mid.account route).idle = left ∧
      (∀ r, r ≠ route → (mid.account r).idle =
        (was.account r).idle.filter (Spared (passes ++ [⟨live, still, now⟩]))) ∧
      ∀ k ∈ (was.account route).idle,
        k ∈ left ∨ k ∈ gone ∨ Lost (passes ++ [⟨live, still, now⟩]) discarded k := by
  intro mid
  have hclean := Swept.closeExpired hbooks live now
  have hsub : left.Sublist ((books.closeExpired live now).2.account route).idle :=
    hsplit ▸ List.sublist_append_left ..
  have hthin : Swept (books.closeExpired live now).2 mid := .thin hsub hclean.balanced
  have hretains : Retains books mid :=
    (Retains.evict hbooks.keyed live _).trans (.thin route fun _ => left)
  have haccount (r : Route) := account_thin (f := fun _ => left) hsub r
  have hothers := h.others.resolve_right (by rintro ⟨hphase | ⟨e, hphase⟩, -⟩ <;> cases hphase)
  refine ⟨hthin.balanced, h.beside.sweep hretains (hclean.trans hthin), ?_, ?_, ?_⟩
  · rw [haccount, if_pos rfl]
  · intro r hr
    rw [haccount, if_neg hr, account_closeExpired hbooks.keyed, ← filter_spared, ← hothers r hr]
    rfl
  · -- what is missing now was dead at this pass, or had been lost before
    intro k hk
    rcases h.own k hk with hidle | htaken | hlost
    · cases hlive : k.isReusable live now with
      | false => exact .inr (.inr (.inl ⟨_, List.mem_append_right _ (.head _), .inl hlive⟩))
      | true =>
        have hkept : k ∈ ((books.closeExpired live now).2.account route).idle := by
          rw [account_closeExpired hbooks.keyed]
          exact List.mem_filter.2 ⟨hidle, hlive⟩
        rw [hsplit, List.mem_append] at hkept
        exact hkept.imp_right .inl
    · cases htaken
    · exact .inr (.inr (hlost.pass _))

/-- A claim keeps the books in this relation to those that the lease has found. -/
theorem Trying.claim (h : Trying was settings.maxTotal route passes discarded .claiming books)
    (hwas : was.Balanced) (hcap : was.leasedTotal + was.idleTotal ≤ settings.maxTotal)
    (hbooks : books.Balanced)
    (hclaim : books.claim settings live still now route = (outcome, t)) :
    Trying was settings.maxTotal route (passes ++ [⟨live, still, now⟩]) discarded outcome.phase
      (outcome.record route t) := by
  have hlost {k : IdleConnection} (hdead : k.isReusable still now = false) :
      Lost (passes ++ [⟨live, still, now⟩]) discarded k :=
    .inl ⟨_, List.mem_append_right _ (.head _), .inr hdead⟩
  have hall := (List.nil_append ((books.closeExpired live now).2.account route).idle).symm
  have hempty (hnone : ∀ d ∈ ((books.closeExpired live now).2.account route).idle,
      d.isReusable still now = false) :
      ∀ k ∈ (was.account route).idle, Lost (passes ++ [⟨live, still, now⟩]) discarded k := by
    obtain ⟨-, -, -, -, hown⟩ := h.sweep hbooks live still now hall
    intro k hk
    rcases hown k hk with hstays | hgone | hdead
    · cases hstays
    · exact hlost (hnone k hgone)
    · exact hdead
  cases claimed hclaim with
  | @reuse older newer c hidle hnewer =>
    obtain ⟨-, hbeside, hleft, hothers, hown⟩ := h.sweep hbooks live still now hidle
    refine ⟨hbeside.addLease, ?_, .inr (.inl ⟨c, rfl⟩), .inl ?_⟩
    · intro k hk
      rw [Claim.record, idle_addLease, hleft]
      rcases hown k hk with hstays | hgone | hdead
      · exact .inl hstays
      · rcases List.mem_cons.1 hgone with rfl | hlater
        · exact .inr (.inl rfl)
        · exact .inr (.inr (hlost (hnewer k hlater)))
      · exact .inr (.inr hdead)
    · intro r hr
      rw [Claim.record, idle_addLease, hothers r hr]
  | wait hswept hnone =>
    obtain ⟨-, hbeside, hleft, hothers, -⟩ := h.sweep hbooks live still now hall
    rw [← hswept] at hbeside hleft hothers
    have hown := hempty hnone
    refine ⟨hbeside.addPending, fun k hk => .inr (.inr (hown k hk)), .inr (.inr ?_), .inl ?_⟩
    · rw [Claim.record, idle_addPending, hleft]
    · intro r hr
      rw [Claim.record, idle_addPending, hothers r hr]
  | connect hswept hnone =>
    obtain ⟨-, hbeside, hleft, hothers, -⟩ := h.sweep hbooks live still now hall
    rw [← hswept] at hbeside hleft hothers
    have hown := hempty hnone
    refine ⟨hbeside.addLease, fun k hk => .inr (.inr (hown k hk)), .inr (.inr ?_), .inl ?_⟩
    · rw [Claim.record, idle_addLease, hleft]
    · intro r hr
      rw [Claim.record, idle_addLease, hothers r hr]
  | @evict swept roomy hswept hnone _ hfull hevict =>
    obtain ⟨hmid, hbeside, hleft, -, -⟩ := h.sweep hbooks live still now hall
    rw [← hswept] at hmid hbeside hleft
    have hown := hempty hnone
    -- as the pool is still full, the lease has not removed a connection so far
    have hleased := hbeside.leasedTotal hwas hmid
    have hsame := idle_eq_of_idleTotal hwas hmid hbeside.idle (by omega)
    have hcloses := closesFirst_of_evict hmid hsame hleft hevict
    have hevicted := (evictOldest?_some hmid hevict).1
    have hroomy := hbeside.sweep (.makeRoom hmid (by rw [makeRoom?, if_pos hfull, hevict])) hevicted
    refine ⟨hroomy.addLease, fun k hk => .inr (.inr (hown k hk)), .inr (.inr ?_),
      .inr ⟨.inl rfl, ?_, hcloses.congr ?_⟩⟩
    · rw [Claim.record, idle_addLease]
      exact List.sublist_nil.1 (hleft ▸ hevicted.idle route)
    · have hfewer := total_mono (m := fun a => a.idle.length) hwas.keyed hmid.keyed rfl
        fun r => (hbeside.idle r).length_le
      rw [← hwas.idle, ← hmid.idle] at hfewer
      omega
    · exact idle_addLease roomy route

end Claim

/-! ## Other acts of the lease -/

section Next

variable {c : IdleConnection} {woken : Bool}

/-- The connection that the lease has taken turns out closed. -/
theorem Trying.unready (h : Trying was maxTotal route passes discarded (.readying c) books)
    (hbooks : books.Keyed) (live : ConnId → Bool) :
    Trying was maxTotal route passes (discarded ++ [c]) .claiming
      (books.finishLease live route none) := by
  have hbeside := h.beside.finishLease hbooks live
  refine h.next hbeside (idle_finishLease_none hbooks live) ?_ (.inl rfl) ?_
  · intro k hk
    obtain rfl := Phase.readying.inj hk
    exact .inr (.head _)
  · rintro (hphase | ⟨e, hphase⟩) <;> cases hphase

/-- The lease goes on as before, but perhaps in another phase. -/
theorem Trying.move (h : Trying was maxTotal route passes discarded phase books) {next : Phase}
    (hbeside : was.Beside route (if next.hasPlace then 1 else 0) (if next.isParked then 1 else 0) t)
    (hidle : ∀ r, (t.account r).idle = (books.account r).idle)
    (hready : ∀ k, phase = .readying k → next = .readying k)
    (hemptied : next = .claiming ∨ (∃ c, next = .readying c) ∨ (books.account route).idle = [])
    (htried : phase = .connecting ∨ (∃ e, phase = .ended (.refused e)) →
      next = .connecting ∨ ∃ e, next = .ended (.refused e)) :
    Trying was maxTotal route passes discarded next t := by
  have hnext : Trying was maxTotal route passes (discarded ++ []) next t :=
    h.next hbeside hidle (fun k hk => .inl (hready k hk)) hemptied htried
  rwa [List.append_nil] at hnext

/-- A lease that cannot open its connection gives back its place. -/
theorem Trying.refuse (h : Trying was maxTotal route passes discarded .connecting books)
    (hbooks : books.Keyed) (live : ConnId → Bool) (e : TransportError) :
    Trying was maxTotal route passes discarded (.ended (.refused e))
      (books.finishLease live route none) := by
  have hnone : (books.account route).idle = [] := h.emptied.resolve_left nofun |>.resolve_left nofun
  exact h.move (h.beside.finishLease hbooks live) (idle_finishLease_none hbooks live) nofun
    (.inr (.inr hnone)) fun _ => .inr ⟨e, rfl⟩

/-- The lease leaves the waiting room, to claim once more or because its deadline has passed. -/
theorem Trying.leave (h : Trying was maxTotal route passes discarded (.parked woken) books)
    (hbooks : books.Keyed) {next : Phase} (hnext : next = .claiming ∨ next = .ended .timedOut) :
    Trying was maxTotal route passes discarded next (books.removePending route) := by
  have hnone : (books.account route).idle = [] := h.emptied.resolve_left nofun |>.resolve_left nofun
  have hbeside := h.beside.removePending hbooks
  have hidle := idle_removePending route hbooks
  rcases hnext with rfl | rfl
  · exact h.move hbeside hidle nofun (.inl rfl) (by rintro (hphase | ⟨e, hphase⟩) <;> cases hphase)
  · exact h.move hbeside hidle nofun (.inr (.inr hnone))
      (by rintro (hphase | ⟨e, hphase⟩) <;> cases hphase)

/-- A lease that is woken has done as much as before. -/
theorem Trying.wake (h : Trying was maxTotal route passes discarded phase books)
    (hparked : phase = .parked woken) :
    Trying was maxTotal route passes discarded (.parked true) books := by
  subst hparked
  have hnone : (books.account route).idle = [] := h.emptied.resolve_left nofun |>.resolve_left nofun
  exact h.move h.beside (fun _ => rfl) nofun (.inr (.inr hnone))
    (by rintro (hphase | ⟨e, hphase⟩) <;> cases hphase)

/-- The order of the entries does not matter for what a lease has done. -/
theorem Trying.reorder (h : Trying was maxTotal route passes discarded phase books)
    (hbooks : books.Keyed) {routes : List (Route × RoutePool)} (hperm : books.routes.Perm routes) :
    Trying was maxTotal route passes discarded phase { books with routes := routes } :=
  h.move (h.beside.reorder hbooks hperm)
    (fun r => congrArg Account.idle (account_reorder hbooks hperm r)) (fun _ hk => hk) h.emptied id

end Next

/-! ## What is left -/

/-- What a lease that has failed leaves of the books `s` that it found. `attempted` says whether it
has tried to open a connection. -/
structure Undone (s : State) (maxTotal : Nat) (route : Route) (passes : List Pass)
    (discarded : List IdleConnection) (attempted : Prop) (t : State) : Prop where
  counts : t.created = s.created ∧ t.reused = s.reused ∧ t.closed = s.closed
  leased : t.leasedTotal = s.leasedTotal ∧ ∀ r, (t.get r).leased = (s.get r).leased
  pending : ∀ r, (t.get r).pending = (s.get r).pending
  /-- The entries are those that were there, without the idle connections that are gone. -/
  entries : ∀ r, t.find? r =
    ((s.find? r).map fun p => { p with idle := (t.get r).idle }).filter fun p => !p.isUnused
  idleTotal : t.idleTotal = sumOver t.routes fun p => p.idle.length
  /-- The order of the idle connections is what it was. -/
  order : ∀ r, (t.get r).idle.Sublist (s.get r).idle
  /-- The lease has found no connection of its own route that it could use. -/
  own : (t.get route).idle = [] ∧ ∀ k ∈ (s.get route).idle, Lost passes discarded k
  /-- Of another route, the connections that no pass has found expired or closed are left, unless
  the pool was full: then one was closed to make room, and no other is gone. -/
  others : (∀ r, r ≠ route → (t.get r).idle = (s.get r).idle.filter (Spared passes)) ∨
    attempted ∧ s.leasedTotal + s.idleTotal = maxTotal ∧ ClosesFirst s t route

/-- What a lease has done is undone when it has ended without a connection. -/
theorem Trying.undone {how : LeaseEnd}
    (h : Trying was maxTotal route passes discarded (.ended how) books) (hwas : was.Balanced)
    (hbooks : books.Balanced) (htidy : books.Tidy) :
    Undone was maxTotal route passes discarded (∃ e, how = .refused e) books := by
  have hbeside : was.Beside route 0 0 books := h.beside
  have hnone : (books.account route).idle = [] := by
    rcases h.emptied with hphase | ⟨c, hphase⟩ | hnone
    · cases hphase
    · cases hphase
    · exact hnone
  refine
    { counts := ⟨hbeside.created, hbeside.reused, hbeside.closed⟩
      leased := ⟨hbeside.leasedTotal hwas hbooks, fun r => ?_⟩
      pending := fun r => ?_
      entries := hbeside.find?_eq htidy
      idleTotal := hbooks.idle
      order := hbeside.idle
      own := ⟨hnone, fun k hk => ?_⟩
      others := h.others.imp_right ?_ }
  · have hleased := hbeside.leased r
    rwa [ite_self, Nat.add_zero] at hleased
  · have hpending := hbeside.pending r
    rwa [ite_self, Nat.add_zero] at hpending
  · rcases h.own k hk with hidle | hphase | hlost
    · rw [hnone] at hidle
      cases hidle
    · cases hphase
    · exact hlost
  · rintro ⟨hphase | ⟨e, hphase⟩, hrest⟩
    · cases hphase
    · exact ⟨⟨e, Phase.ended.inj hphase⟩, hrest⟩

end State

/-! ## Runs -/

namespace System

variable {s t : System} {l : LeaseId} {lease : Lease} {was : State} {seen : List Pass}
  {discarded : List IdleConnection} {a : Act} {acts : List Act}

/-- How the books stand to those that the lease `l` has found. -/
def Tries (s : System) (l : LeaseId) (lease : Lease) (was : State) (seen : List Pass)
    (discarded : List IdleConnection) : Prop :=
  ∃ next, s.leases[l]? = some { lease with phase := next } ∧
    was.Trying s.settings.maxTotal lease.route seen discarded next s.books

/-- Whatever the lease does short of getting a connection, the books stand to those that it has found
as its passes tell. -/
theorem Lone.trying {next : Phase} {books : State} (hlone : s.Lone l lease a next books)
    (hbooks : s.books.Balanced) (hwas : was.Balanced)
    (hcap : was.leasedTotal + was.idleTotal ≤ s.settings.maxTotal) (hopen : was.closed = false)
    (h : was.Trying s.settings.maxTotal lease.route seen discarded lease.phase s.books)
    (ha : a.isAlone l = true) :
    was.Trying s.settings.maxTotal lease.route (seen ++ (s.pass? l a).toList)
      (discarded ++ (s.discard? l a).toList) next books := by
  have hunseen {next : Phase} {books : State} (hnone : s.Unseen l a)
      (h : was.Trying s.settings.maxTotal lease.route seen discarded next books) :
      was.Trying s.settings.maxTotal lease.route (seen ++ (s.pass? l a).toList)
        (discarded ++ (s.discard? l a).toList) next books := by
    rwa [hnone.1, hnone.2, Option.toList_none, Option.toList_none, List.append_nil, List.append_nil]
  cases hlone with
  | still hnone => exact hunseen hnone h
  | wake hparked hnone => exact hunseen hnone (h.wake hparked)
  | reorder hperm hnone => exact hunseen hnone (h.reorder hbooks.keyed hperm)
  | shut hphase hclosed =>
    have hstill : s.books.closed = false := h.beside.closed.trans hopen
    rw [hstill] at hclosed
    cases hclosed
  | claim hphase hclaim hpass hdiscard =>
    rw [hpass, hdiscard, Option.toList_none, List.append_nil]
    rw [hphase] at h
    exact h.claim hwas hcap hbooks hclaim
  | unready hphase hpass hdiscard =>
    rw [hpass, hdiscard, Option.toList_none, List.append_nil]
    rw [hphase] at h
    exact h.unready hbooks.keyed s.live
  | refuse hphase e hnone =>
    rw [hphase] at h
    exact hunseen hnone (h.refuse hbooks.keyed s.live e)
  | resume hparked hnone =>
    rw [hparked] at h
    exact hunseen hnone (h.leave hbooks.keyed (.inl rfl))
  | expire hparked hnone =>
    rw [hparked] at h
    exact hunseen hnone (h.leave hbooks.keyed (.inr rfl))
  | part halone =>
    rw [ha] at halone
    cases halone

/-- What the books come to in a run of the lease alone. -/
theorem Reachable.tries_play {settings : PoolSettings} (hs : Reachable settings s)
    (hl : s.leases[l]? = some lease) (hwas : was.Balanced)
    (hcap : was.leasedTotal + was.idleTotal ≤ settings.maxTotal) (hopen : was.closed = false)
    (h : was.Trying settings.maxTotal lease.route seen discarded lease.phase s.books)
    (hacts : ∀ a ∈ acts, a.isAlone l = true) :
    (s.play acts).Tries l lease was (seen ++ s.passes l acts) (discarded ++ s.discards l acts) := by
  induction acts generalizing s lease seen discarded with
  | nil =>
    rw [passes, discards, List.append_nil, List.append_nil]
    exact ⟨lease.phase, hl, hs.settings_eq ▸ h⟩
  | cons a acts ih =>
    have halone := hacts a List.mem_cons_self
    have hafter : Reachable settings (s.act a) := Relation.ReflTransGen.trans hs (reaches_act s a)
    obtain ⟨next, hnext, hlone⟩ := goesOn_act hl (Act.isOwn_of_isAlone halone)
    have hfirst := hlone.trying hs.accounted.balanced hwas (hs.settings_eq ▸ hcap) hopen
      (hs.settings_eq ▸ h) halone
    rw [hs.settings_eq] at hfirst
    have hrest := ih hafter hnext hfirst fun b hb => hacts b (.tail a hb)
    rwa [passes, discards, ← List.append_assoc, ← List.append_assoc]

/-- Let a lease start in an open pool, in any state of any run, and let it fail, for whatever reason
and after however many attempts, with nobody else doing anything meanwhile. Then the books are those
that it has found, but for idle connections that it has found expired or closed, and perhaps one
that it has closed to make room in a full pool, where it has then tried to connect. -/
theorem failed_lease_undone {settings : PoolSettings} (h : Reachable settings s)
    (hopen : s.books.closed = false) (route : Route) (limit : Option Millis)
    (hacts : ∀ a ∈ acts, a.isAlone s.leases.length = true) {how : LeaseEnd}
    (hfails : ((s.step (.start route limit)).play acts).phase? s.leases.length =
      some (.ended how)) :
    s.books.Undone settings.maxTotal route
      ((s.step (.start route limit)).passes s.leases.length acts)
      ((s.step (.start route limit)).discards s.leases.length acts) (∃ e, how = .refused e)
      ((s.step (.start route limit)).play acts).books := by
  have hl := getElem?_start (s := s) route limit
  have hbooks := h.accounted.balanced
  have hcap := h.capped.total
  rw [h.settings_eq] at hcap
  have hstart : Reachable settings (s.step (.start route limit)) := h.tail (.event s _)
  have hend : Reachable settings ((s.step (.start route limit)).play acts) :=
    Relation.ReflTransGen.trans hstart (reaches_play _ acts)
  obtain ⟨phase, hphase, htrying⟩ := hstart.tries_play hl hbooks hcap hopen
    (State.trying_refl s.books settings.maxTotal route) hacts
  rw [phase?_of_lease hphase, Option.some.injEq] at hfails
  obtain rfl : phase = .ended how := hfails
  rw [List.nil_append, List.nil_append, hend.settings_eq] at htrying
  have hstill := htrying.beside.closed.trans hopen
  exact htrying.undone hbooks hend.accounted.balanced (hend.tidy hstill)

/-- The pool is full of two idle connections. A lease on a third route closes the one that has been
idle longer, and cannot connect: the route of this one is forgotten, that of the other is as before,
and the third route is unknown again. -/
theorem failed_lease_undone_full_pool :
    let settings : PoolSettings := ⟨1, 2, .standard⟩
    let route (port : UInt16) : Route := ⟨.http, ['h'], port⟩
    let error : TransportError := .new .unknownHost "http://h:82" "no address"
    let s := (init settings).run
      [.start (route 80) none, .claim 0 [], .connected 0, .start (route 81) none, .claim 1 [],
        .connected 1, .release 0 0, .tick 5, .release 1 0]
    let t := s.step (.start (route 82) (some 9))
    let acts : List Act := [Event.claim 2 [], .refused 2 error, .broadcast].map .event
    let l := s.leases.length
    s.books.closed = false ∧ (∀ a ∈ acts, a.isAlone l = true) ∧
      (t.play acts).phase? l = some (.ended (.refused error)) ∧
      s.books.Undone 2 (route 82) (t.passes l acts) (t.discards l acts)
        (∃ e, LeaseEnd.refused error = .refused e) (t.play acts).books ∧
      s.books.leasedTotal + s.books.idleTotal = 2 ∧
      (t.play acts).books.routes = [(route 81, s.books.get (route 81))] := by
  intro settings route error s t acts l
  have hreachable : Reachable settings s := reaches_run _ _
  have hopen : s.books.closed = false := by decide
  have halone : ∀ a ∈ acts, a.isAlone l = true := List.all_eq_true.1 (by decide)
  have hfails : (t.play acts).phase? l = some (.ended (.refused error)) := by decide
  exact ⟨hopen, halone, hfails,
    failed_lease_undone hreachable hopen (route 82) (some 9) halone hfails, by decide, by decide⟩

end System
end PooledHttp.Pool
