import PooledHttp.Proofs.Pool.Accounts

/-!
# What the operations of a pool do to its books

The totals of leased and idle connections are kept by hand, one addition or subtraction at a time.
Books are balanced when the totals are the sums they stand for. Every operation keeps balanced books
balanced, and this file says for each what becomes of the accounts.

The operations that only remove idle connections have one description, `State.Swept`. The others
change the account of one route; where they subtract, the statement that the books stay balanced asks
for something to subtract from.
-/

set_option autoImplicit false

namespace PooledHttp.Pool.State

/-- The totals are the sums they stand for, and every route has at most one entry. -/
structure Balanced (s : State) : Prop where
  keyed : s.Keyed
  leased : s.leasedTotal = s.total Account.leased
  idle : s.idleTotal = s.total fun a => a.idle.length

/-- The number of idle connections, over all routes, that pass a test. -/
def idleCount (test : IdleConnection → Bool) (s : State) : Nat :=
  s.total fun a => a.idle.countP test

/-- No idle connection passes a test exactly if each one fails it. -/
theorem idleCount_eq_zero_iff {s : State} {test : IdleConnection → Bool} :
    s.idleCount test = 0 ↔ ∀ e ∈ s.routes, ∀ i ∈ e.2.idle, test i = false := by
  rw [idleCount, total, sumOver_eq_zero_iff]
  simp only [List.countP_eq_zero, RoutePool.account, Bool.not_eq_true]

section Modify

variable (s : State) (route : Route) (f : RoutePool → RoutePool)

/-- Changing an entry does not change the total of leases. -/
@[simp]
theorem leasedTotal_modify : (s.modify route f).leasedTotal = s.leasedTotal := by
  unfold modify
  split <;> rfl

/-- Changing an entry does not change the total of idle connections. -/
@[simp]
theorem idleTotal_modify : (s.modify route f).idleTotal = s.idleTotal := by
  unfold modify
  split <;> rfl

/-- Changing an entry does not change whether the pool is closed. -/
@[simp]
theorem closed_modify : (s.modify route f).closed = s.closed := by
  unfold modify
  split <;> rfl

/-- Changing an entry does not change the count of connections created. -/
@[simp]
theorem created_modify : (s.modify route f).created = s.created := by
  unfold modify
  split <;> rfl

/-- Changing an entry does not change the count of connections reused. -/
@[simp]
theorem reused_modify : (s.modify route f).reused = s.reused := by
  unfold modify
  split <;> rfl

end Modify

/-- Books without entries are balanced. -/
theorem balanced_empty : State.empty.Balanced := ⟨List.nodup_nil, rfl, rfl⟩

/-- Books stay balanced when one account changes and the totals follow it. -/
theorem Balanced.of_change {s t : State} (hs : s.Balanced) (ht : t.Keyed) (route : Route)
    (hothers : ∀ r, r ≠ route → t.account r = s.account r)
    (hleased : t.leasedTotal + (s.account route).leased =
      s.leasedTotal + (t.account route).leased)
    (hidle : t.idleTotal + (s.account route).idle.length =
      s.idleTotal + (t.account route).idle.length) : t.Balanced := by
  have hl := total_of_change (m := Account.leased) hs.keyed ht rfl route fun r hr => by
    rw [hothers r hr]
  have hi := total_of_change (m := fun a => a.idle.length) hs.keyed ht rfl route fun r hr => by
    rw [hothers r hr]
  have hsl := hs.leased
  have hsi := hs.idle
  exact ⟨ht, by omega, by omega⟩

/-- The total counts the leased connections of every route. -/
theorem leased_le {s : State} (hs : s.Balanced) (route : Route) :
    (s.account route).leased ≤ s.leasedTotal := by
  rw [hs.leased]
  exact le_total (m := Account.leased) hs.keyed rfl route

/-- The total counts the idle connections of every route. -/
theorem idle_length_le {s : State} (hs : s.Balanced) (route : Route) :
    (s.account route).idle.length ≤ s.idleTotal := by
  rw [hs.idle]
  exact le_total (m := fun a => a.idle.length) hs.keyed rfl route

/-! ## Removing idle connections -/

/-- `t` is `s` with some of its idle connections gone. -/
structure Swept (s t : State) : Prop where
  balanced : t.Balanced
  closed : t.closed = s.closed
  leasedTotal : t.leasedTotal = s.leasedTotal
  leased : ∀ r, (t.account r).leased = (s.account r).leased
  pending : ∀ r, (t.account r).pending = (s.account r).pending
  idle : ∀ r, (t.account r).idle.Sublist (s.account r).idle

/-- Nothing needs to be removed. -/
theorem Swept.refl {s : State} (hs : s.Balanced) : Swept s s :=
  ⟨hs, rfl, rfl, fun _ => rfl, fun _ => rfl, fun _ => .refl _⟩

/-- What is removed twice is removed. -/
theorem Swept.trans {s t u : State} (h : Swept s t) (h' : Swept t u) : Swept s u where
  balanced := h'.balanced
  closed := h'.closed.trans h.closed
  leasedTotal := h'.leasedTotal.trans h.leasedTotal
  leased r := (h'.leased r).trans (h.leased r)
  pending r := (h'.pending r).trans (h.pending r)
  idle r := (h'.idle r).trans (h.idle r)

/-- Sweeping leaves no more idle connections of any kind. -/
theorem Swept.idleCount_le {s t : State} (hs : s.Balanced) (h : Swept s t)
    (test : IdleConnection → Bool) : t.idleCount test ≤ s.idleCount test :=
  total_mono hs.keyed h.balanced.keyed rfl fun r => (h.idle r).countP_le

/-- Removing idle connections lowers their total, if anything. -/
theorem Swept.idleTotal_le {s t : State} (hs : s.Balanced) (h : Swept s t) :
    t.idleTotal ≤ s.idleTotal := by
  rw [hs.idle, h.balanced.idle]
  exact total_mono hs.keyed h.balanced.keyed rfl fun r => (h.idle r).length_le

/-- What has to be shown of an operation that removes idle connections: the leased total is then
right of itself. -/
theorem Swept.of_idle {s t : State} (hs : s.Balanced) (ht : t.Keyed) (hclosed : t.closed = s.closed)
    (hleasedTotal : t.leasedTotal = s.leasedTotal)
    (hidleTotal : t.idleTotal = t.total fun a => a.idle.length)
    (haccount : ∀ r, ∃ idle, idle.Sublist (s.account r).idle ∧
      t.account r = { s.account r with idle := idle }) : Swept s t := by
  have hleased : ∀ r, (t.account r).leased = (s.account r).leased := fun r => by
    obtain ⟨idle, -, h⟩ := haccount r
    rw [h]
  refine ⟨⟨ht, ?_, hidleTotal⟩, hclosed, hleasedTotal, hleased, fun r => ?_, fun r => ?_⟩
  · rw [hleasedTotal, hs.leased]
    exact (total_congr hs.keyed ht rfl hleased).symm
  · obtain ⟨idle, -, h⟩ := haccount r
    rw [h]
  · obtain ⟨idle, hsub, h⟩ := haccount r
    rw [h]
    exact hsub

/-- Forgetting unused routes. -/
theorem Swept.prune {s : State} (hs : s.Balanced) : Swept s s.prune := by
  refine .of_idle hs hs.keyed.prune rfl rfl ?_ fun r => ?_
  · show s.idleTotal = _
    rw [hs.idle]
    exact (total_congr hs.keyed hs.keyed.prune rfl fun r => by rw [account_prune hs.keyed]).symm
  · exact ⟨_, .refl _, account_prune hs.keyed r⟩

/-- What is left of the entries when the closed and the unwanted idle connections are removed. -/
def keepOnly (s : State) (live : ConnId → Bool) (keep : IdleConnection → Bool) : State :=
  { s with
    routes := s.routes.map fun e =>
      (e.1, { e.2 with idle := e.2.idle.filter fun c => live c.conn && keep c }) }

/-- Keeping some of the idle connections leaves one entry for each route. -/
theorem keyed_keepOnly {s : State} (hs : s.Keyed) (live : ConnId → Bool)
    (keep : IdleConnection → Bool) : (s.keepOnly live keep).Keyed :=
  hs.map fun p => { p with idle := p.idle.filter fun c => live c.conn && keep c }

/-- Of the idle connections, the open ones among those to be kept are left. -/
theorem account_keepOnly (s : State) (live : ConnId → Bool) (keep : IdleConnection → Bool)
    (route : Route) :
    (s.keepOnly live keep).account route = { s.account route with
      idle := (s.account route).idle.filter fun c => live c.conn && keep c } :=
  account_map s (fun p => { p with idle := p.idle.filter fun c => live c.conn && keep c }) rfl route

/-- Eviction leaves the open ones among the idle connections to be kept, and no other account
changes. -/
theorem account_evict {s : State} (hs : s.Keyed) (live : ConnId → Bool)
    (keep : IdleConnection → Bool) (route : Route) :
    (s.evict live keep).2.account route = { s.account route with
      idle := (s.account route).idle.filter fun c => live c.conn && keep c } := by
  have hprune := account_prune (s := { s.keepOnly live keep with
    idleTotal := s.idleTotal - (s.evict live keep).1 }) (keyed_keepOnly hs live keep) route
  exact hprune.trans (account_keepOnly s live keep route)

/-- A removal of idle connections forgets the routes that are unused afterwards. -/
theorem find?_evict {s : State} (hs : s.Keyed) (live : ConnId → Bool) (keep : IdleConnection → Bool)
    (route : Route) : (s.evict live keep).2.find? route =
      ((s.find? route).map fun p =>
        { p with idle := p.idle.filter fun c => live c.conn && keep c }).filter
          fun p => !p.isUnused := by
  have hprune := find?_prune (s := { s.keepOnly live keep with
    idleTotal := s.idleTotal - (s.evict live keep).1 }) (keyed_keepOnly hs live keep) route
  refine hprune.trans (congrArg _ ?_)
  exact find?_map s (fun p => { p with idle := p.idle.filter fun c => live c.conn && keep c }) route

/-- The number of idle connections removed is the difference of two sums. -/
theorem evict_fst (s : State) (live : ConnId → Bool) (keep : IdleConnection → Bool) :
    (s.evict live keep).1 = (s.total fun a => a.idle.length) -
      (s.keepOnly live keep).total fun a => a.idle.length := rfl

/-- Keeping some of the idle connections lowers their number, if anything. -/
theorem keepOnly_total_le {s : State} (hs : s.Keyed) (live : ConnId → Bool)
    (keep : IdleConnection → Bool) :
    ((s.keepOnly live keep).total fun a => a.idle.length) ≤ s.total fun a => a.idle.length :=
  total_mono hs (keyed_keepOnly hs live keep) rfl fun r => by
    rw [account_keepOnly]
    exact List.length_filter_le _ _

/-- No more idle connections are removed than are counted. -/
theorem evict_fst_le {s : State} (hs : s.Balanced) (live : ConnId → Bool)
    (keep : IdleConnection → Bool) : (s.evict live keep).1 ≤ s.idleTotal := by
  rw [evict_fst, hs.idle]
  exact Nat.sub_le _ _

/-- An eviction sweeps. -/
theorem Swept.evict {s : State} (hs : s.Balanced) (live : ConnId → Bool)
    (keep : IdleConnection → Bool) : Swept s (s.evict live keep).2 := by
  let kept : State := { s.keepOnly live keep with
    idleTotal := s.idleTotal - (s.evict live keep).1 }
  have hle := keepOnly_total_le hs.keyed live keep
  have hkept : Swept s kept := by
    refine .of_idle hs (keyed_keepOnly hs.keyed live keep) rfl rfl ?_ fun r => ?_
    · show s.idleTotal - (s.evict live keep).1 =
        (s.keepOnly live keep).total fun a => a.idle.length
      rw [evict_fst, hs.idle]
      omega
    · exact ⟨_, List.filter_sublist, account_keepOnly s live keep r⟩
  exact hkept.trans (.prune hkept.balanced)

/-- A choice `f` made among the idle connections of a route, the total following. -/
def thin (s : State) (route : Route) (f : List IdleConnection → List IdleConnection) : State :=
  { s.modifyKnown route fun p => { p with idle := f p.idle } with
    idleTotal := s.idleTotal - ((s.get route).idle.length - (f (s.get route).idle).length) }

/-- Thinning changes the idle connections in the entry of the route only. -/
theorem find?_thin (s : State) (route : Route) (f : List IdleConnection → List IdleConnection)
    (r : Route) : (s.thin route f).find? r =
      if r = route then (s.find? route).map fun p => { p with idle := f p.idle } else s.find? r :=
  find?_modifyKnown s route (fun p => { p with idle := f p.idle }) r

/-- A choice that leaves nothing out changes nothing. -/
theorem thin_eq_self {s : State} (hs : s.Keyed) {route : Route}
    {f : List IdleConnection → List IdleConnection}
    (hf : f (s.account route).idle = (s.account route).idle) : s.thin route f = s := by
  have hroutes : s.routes.map (fun e =>
      (e.1, if e.1 = route then { e.2 with idle := f e.2.idle } else e.2)) = s.routes := by
    conv_rhs => rw [← List.map_id s.routes]
    apply List.map_congr_left
    rintro ⟨r, p⟩ he
    by_cases hr : r = route
    · subst hr
      rw [account_of_mem hs he] at hf
      have hidle : f p.idle = p.idle := hf
      simp [hidle]
    · simp [hr]
  have hidle : f (s.get route).idle = (s.get route).idle := hf
  simp [thin, modifyKnown_eq, hroutes, hidle]

section Thin

variable {s : State} {route : Route} {f : List IdleConnection → List IdleConnection}
  (hf : (f (s.account route).idle).Sublist (s.account route).idle)

include hf

/-- Thinning changes the idle connections in the account of the route only. -/
theorem account_thin (r : Route) : (s.thin route f).account r =
    if r = route then { s.account route with idle := f (s.account route).idle }
    else s.account r := by
  refine account_modifyKnown s route (fun p => { p with idle := f p.idle }) ?_ r
  cases hl : s.find? route with
  | some p => exact .inl rfl
  | none =>
    -- a route without an entry has no idle connections to choose from
    have hnil : f [] = [] := by
      simpa [account, State.get, hl, Account.blank] using hf
    exact .inr (by simp [RoutePool.account, RoutePool.fresh, Account.blank, hnil])

/-- The number of idle connections that pass a test falls by what the choice leaves out. -/
theorem idleCount_thin (hs : s.Keyed) (test : IdleConnection → Bool) :
    (s.thin route f).idleCount test + (s.account route).idle.countP test =
      s.idleCount test + (f (s.account route).idle).countP test := by
  have hkeyed : (s.thin route f).Keyed :=
    hs.modifyKnown route fun p => { p with idle := f p.idle }
  have hchange := total_of_change (m := fun a => a.idle.countP test) hs hkeyed rfl route
    fun r hr => by rw [account_thin hf, if_neg hr]
  rwa [account_thin hf, if_pos rfl] at hchange

/-- Choosing among the idle connections of a route sweeps. -/
theorem Swept.thin (hs : s.Balanced) : Swept s (s.thin route f) := by
  have hkeyed : (s.thin route f).Keyed :=
    hs.keyed.modifyKnown route fun p => { p with idle := f p.idle }
  refine .of_idle hs hkeyed rfl rfl ?_ fun r => ?_
  · have hlen := hf.length_le
    have hall := idle_length_le hs route
    have htotal := hs.idle
    have hcount := idleCount_thin hf hs.keyed fun _ => true
    simp only [idleCount, List.countP_true] at hcount
    show s.idleTotal - ((s.account route).idle.length - (f (s.account route).idle).length) = _
    omega
  · rw [account_thin hf]
    by_cases hr : r = route
    · subst hr
      exact ⟨_, hf, by simp⟩
    · exact ⟨_, .refl _, by simp [hr]⟩

end Thin

/-! ## Entering and ending leases -/

/-- What the account of one route keeps when it changes is kept in all accounts. -/
theorem keep_of_update {β : Type} (figure : Account → β) {s : State} {route : Route} {a : Account}
    (h : figure a = figure (s.account route)) (r : Route) :
    figure (if r = route then a else s.account r) = figure (s.account r) := by
  split
  case isTrue hr => rw [hr, h]
  case isFalse => rfl

/-- A lease is added to the entry of its route, which is made if it is missing. -/
theorem find?_addLease (s : State) (route r : Route) : (s.addLease route).find? r =
    if r = route then some { s.get route with leased := (s.get route).leased + 1 }
    else s.find? r :=
  find?_modify s route (fun p => { p with leased := p.leased + 1 }) r

/-- A lease is added to the account of its route. -/
theorem account_addLease (s : State) (route r : Route) : (s.addLease route).account r =
    if r = route then { s.account route with leased := (s.account route).leased + 1 }
    else s.account r :=
  account_modify s route (fun p => { p with leased := p.leased + 1 }) r

/-- Adding a lease changes no idle connection. -/
@[simp]
theorem idle_addLease (s : State) (route r : Route) :
    ((s.addLease route).account r).idle = (s.account r).idle := by
  rw [account_addLease]
  exact keep_of_update Account.idle (by rfl) r

/-- Adding a lease adds one to the leases of its route. -/
theorem leased_addLease (s : State) (route r : Route) : ((s.addLease route).account r).leased =
    (s.account r).leased + if r = route then 1 else 0 := by
  rw [account_addLease]
  split
  case isTrue hr => rw [hr]
  case isFalse => rfl

/-- Adding a lease changes no number of waits. -/
theorem pending_addLease (s : State) (route r : Route) :
    ((s.addLease route).account r).pending = (s.account r).pending := by
  rw [account_addLease]
  exact keep_of_update Account.pending (by rfl) r

/-- Adding a lease leaves the books balanced. -/
theorem Balanced.addLease {s : State} (hs : s.Balanced) (route : Route) :
    (s.addLease route).Balanced := by
  have hkeyed : (s.addLease route).Keyed :=
    hs.keyed.modify route fun p => { p with leased := p.leased + 1 }
  refine hs.of_change hkeyed route (fun r hr => ?_) ?_ ?_
  · rw [account_addLease, if_neg hr]
  · rw [account_addLease, if_pos rfl]
    show s.leasedTotal + 1 + _ = s.leasedTotal + (_ + 1)
    omega
  · rw [account_addLease, if_pos rfl]
    simp [State.addLease]

/-- The connection of a lease that ends is kept if it is open and the pool is not shut down. -/
def kept (s : State) (live : ConnId → Bool) (parked : Option IdleConnection) :
    Option IdleConnection :=
  parked.filter fun c => !s.closed && live c.conn

/-- A lease leaves the books. -/
def endLease (s : State) (route : Route) : State :=
  { s.modify route fun p => { p with leased := p.leased - 1 } with leasedTotal := s.leasedTotal - 1 }

/-- At most the connection that is given back is kept. -/
theorem kept_sublist (s : State) (live : ConnId → Bool) (parked : Option IdleConnection) :
    (s.kept live parked).toList.Sublist parked.toList := by
  cases parked with
  | none => exact List.Sublist.refl _
  | some c =>
    rw [kept, Option.filter_some]
    split
    · exact List.Sublist.refl _
    · exact List.nil_sublist _

/-- A pool that is shut down keeps nothing. -/
theorem kept_of_closed {s : State} (hclosed : s.closed = true) (live : ConnId → Bool)
    (parked : Option IdleConnection) : s.kept live parked = none := by
  simp [kept, hclosed]

section FinishLease

variable {s : State} (live : ConnId → Bool) (route : Route) (parked : Option IdleConnection)

/-- The end of a lease: it leaves the books, and then either its connection is parked or unused
routes are forgotten. -/
theorem finishLease_eq : s.finishLease live route parked = match s.kept live parked with
    | some c => { (s.endLease route).modify route fun p => { p with idle := p.idle ++ [c] } with
        idleTotal := s.idleTotal + 1 }
    | none => (s.endLease route).prune := by
  cases parked with
  | none => rfl
  | some c =>
    by_cases h : (!s.closed && live c.conn) = true
    · simp only [finishLease, kept, Option.filter, h, if_true]
      rfl
    · simp only [finishLease, kept, Option.filter, h]
      rfl

/-- Taking a lease off leaves one entry for each route. -/
theorem keyed_endLease (hs : s.Keyed) : (s.endLease route).Keyed :=
  hs.modify route fun p => { p with leased := p.leased - 1 }

/-- Ending a lease leaves one entry for each route. -/
theorem keyed_finishLease (hs : s.Keyed) : (s.finishLease live route parked).Keyed := by
  rw [finishLease_eq]
  cases s.kept live parked with
  | none => exact (keyed_endLease route hs).prune
  | some c => exact (keyed_endLease route hs).modify route fun p => { p with idle := p.idle ++ [c] }

/-- Ending a lease takes one off the total of leases. -/
@[simp]
theorem leasedTotal_finishLease :
    (s.finishLease live route parked).leasedTotal = s.leasedTotal - 1 := by
  rw [finishLease_eq]
  cases s.kept live parked <;> simp [endLease, State.prune]

/-- Ending a lease does not change whether the pool is closed. -/
@[simp]
theorem closed_finishLease : (s.finishLease live route parked).closed = s.closed := by
  rw [finishLease_eq]
  cases s.kept live parked <;> simp [endLease, State.prune]

/-- Ending a lease adds the connection that is kept to the total of idle ones. -/
theorem idleTotal_finishLease : (s.finishLease live route parked).idleTotal =
    s.idleTotal + (s.kept live parked).toList.length := by
  rw [finishLease_eq]
  cases s.kept live parked <;> simp [endLease, State.prune]

/-- Ending a lease changes the account of its route: one lease less, and what is kept is idle last.
-/
theorem account_finishLease (hs : s.Keyed) (r : Route) :
    (s.finishLease live route parked).account r =
      if r = route then
        { s.account route with
          leased := (s.account route).leased - 1
          idle := (s.account route).idle ++ (s.kept live parked).toList }
      else s.account r := by
  have hended (r : Route) : (s.endLease route).account r =
      if r = route then { s.account route with leased := (s.account route).leased - 1 }
      else s.account r :=
    account_modify s route (fun p => { p with leased := p.leased - 1 }) r
  rw [finishLease_eq]
  cases s.kept live parked with
  | none =>
    show (s.endLease route).prune.account r = _
    rw [account_prune (keyed_endLease route hs), hended]
    simp
  | some c =>
    have hparked := account_modify (s.endLease route) route
      (fun p => { p with idle := p.idle ++ [c] }) r
    refine hparked.trans ?_
    have hroute := hended route
    rw [if_pos rfl] at hroute
    split
    case isTrue =>
      show Account.mk ((s.endLease route).account route).leased
        (((s.endLease route).account route).idle ++ [c])
        ((s.endLease route).account route).pending = _
      rw [hroute]
      rfl
    case isFalse h => rw [hended, if_neg h]

/-- Ending a lease changes no number of waits. -/
theorem pending_finishLease (hs : s.Keyed) (r : Route) :
    ((s.finishLease live route parked).account r).pending = (s.account r).pending := by
  rw [account_finishLease live route parked hs]
  exact keep_of_update Account.pending (by rfl) r

/-- Books that count the lease stay balanced when it ends. -/
theorem Balanced.finishLease (hs : s.Balanced) (hleased : 0 < (s.account route).leased) :
    (s.finishLease live route parked).Balanced := by
  have hle := leased_le hs route
  refine hs.of_change (keyed_finishLease live route parked hs.keyed) route
    (fun r hr => ?_) ?_ ?_
  · rw [account_finishLease live route parked hs.keyed, if_neg hr]
  · rw [account_finishLease live route parked hs.keyed, if_pos rfl, leasedTotal_finishLease]
    simp only
    omega
  · rw [account_finishLease live route parked hs.keyed, if_pos rfl, idleTotal_finishLease]
    simp only [List.length_append]
    omega

/-- Ending a lease adds its connection to the idle ones if it is kept. -/
theorem idleCount_finishLease (hs : s.Keyed) (test : IdleConnection → Bool) :
    (s.finishLease live route parked).idleCount test =
      s.idleCount test + (s.kept live parked).toList.countP test := by
  have hchange := total_of_change (m := fun a => a.idle.countP test) hs
    (keyed_finishLease live route parked hs) rfl route fun r hr => by
      rw [account_finishLease live route parked hs, if_neg hr]
  rw [account_finishLease live route parked hs, if_pos rfl] at hchange
  simp only [List.countP_append] at hchange
  simp only [idleCount]
  omega

end FinishLease

/-! ## Waiting and counting -/

/-- Books stay balanced when no account changes its leased or idle connections. -/
theorem Balanced.of_same {s t : State} (hs : s.Balanced) (ht : t.Keyed)
    (hleasedTotal : t.leasedTotal = s.leasedTotal) (hidleTotal : t.idleTotal = s.idleTotal)
    (hleased : ∀ r, (t.account r).leased = (s.account r).leased)
    (hidle : ∀ r, (t.account r).idle = (s.account r).idle) : t.Balanced := by
  refine ⟨ht, ?_, ?_⟩
  · rw [hleasedTotal, hs.leased, total_congr hs.keyed ht rfl hleased]
  · rw [hidleTotal, hs.idle, total_congr hs.keyed ht rfl fun r => by rw [hidle r]]

/-- The number of idle connections that pass a test depends on the idle connections alone. -/
theorem idleCount_congr {s t : State} (hs : s.Keyed) (ht : t.Keyed)
    (hidle : ∀ r, (t.account r).idle = (s.account r).idle) (test : IdleConnection → Bool) :
    t.idleCount test = s.idleCount test :=
  total_congr hs ht rfl fun r => by rw [hidle r]

section Waiting

variable {s : State} (route : Route)

/-- A wait is added to the account of its route. -/
theorem account_addPending (r : Route) : (s.addPending route).account r =
    if r = route then { s.account route with pending := (s.account route).pending + 1 }
    else s.account r :=
  account_modify s route (fun p => { p with pending := p.pending + 1 }) r

/-- Adding a wait changes no number of leases. -/
@[simp]
theorem leased_addPending (r : Route) :
    ((s.addPending route).account r).leased = (s.account r).leased := by
  rw [account_addPending]
  exact keep_of_update Account.leased (by rfl) r

/-- Adding a wait changes no idle connection. -/
@[simp]
theorem idle_addPending (r : Route) :
    ((s.addPending route).account r).idle = (s.account r).idle := by
  rw [account_addPending]
  exact keep_of_update Account.idle (by rfl) r

/-- Adding a wait leaves one entry for each route. -/
theorem keyed_addPending (hs : s.Keyed) : (s.addPending route).Keyed :=
  hs.modify route fun p => { p with pending := p.pending + 1 }

/-- Adding a wait leaves the books balanced. -/
theorem Balanced.addPending (hs : s.Balanced) : (s.addPending route).Balanced := by
  refine hs.of_same (keyed_addPending route hs.keyed) ?_ ?_ (leased_addPending route)
    (idle_addPending route)
  · simp [State.addPending]
  · simp [State.addPending]

/-- Taking a wait off leaves one entry for each route. -/
theorem keyed_removePending (hs : s.Keyed) : (s.removePending route).Keyed :=
  (hs.modifyKnown route fun p => { p with pending := p.pending - 1 }).prune

/-- A wait is taken off the account of its route. -/
theorem account_removePending (hs : s.Keyed) (r : Route) : (s.removePending route).account r =
    if r = route then { s.account route with pending := (s.account route).pending - 1 }
    else s.account r := by
  have hkeyed := hs.modifyKnown route fun p => { p with pending := p.pending - 1 }
  exact (account_prune hkeyed r).trans
    (account_modifyKnown s route (fun p => { p with pending := p.pending - 1 }) (.inr rfl) r)

/-- Taking a wait off changes no number of leases. -/
theorem leased_removePending (hs : s.Keyed) (r : Route) :
    ((s.removePending route).account r).leased = (s.account r).leased := by
  rw [account_removePending route hs]
  exact keep_of_update Account.leased (by rfl) r

/-- Taking a wait off changes no idle connection. -/
theorem idle_removePending (hs : s.Keyed) (r : Route) :
    ((s.removePending route).account r).idle = (s.account r).idle := by
  rw [account_removePending route hs]
  exact keep_of_update Account.idle (by rfl) r

/-- Taking a wait off leaves the books balanced. -/
theorem Balanced.removePending (hs : s.Balanced) : (s.removePending route).Balanced :=
  hs.of_same (keyed_removePending route hs.keyed) rfl rfl (leased_removePending route hs.keyed)
    (idle_removePending route hs.keyed)

/-- The counts of connections created and reused are no part of an account. -/
theorem account_modify_counts {f : RoutePool → RoutePool} (hf : ∀ p, (f p).account = p.account)
    (r : Route) : (s.modify route f).account r = s.account r := by
  rw [account_modify]
  exact keep_of_update id (hf _) r

/-- Counting a connection as created changes no account. -/
theorem account_countCreated (r : Route) : (s.countCreated route).account r = s.account r :=
  account_modify_counts route (f := fun p => { p with created := p.created + 1 }) (fun _ => rfl) r

/-- Counting a connection as reused changes no account. -/
theorem account_countReused (r : Route) : (s.countReused route).account r = s.account r :=
  account_modify_counts route (f := fun p => { p with reused := p.reused + 1 }) (fun _ => rfl) r

/-- Counting a connection as created leaves the books balanced. -/
theorem Balanced.countCreated (hs : s.Balanced) : (s.countCreated route).Balanced := by
  refine hs.of_same (hs.keyed.modify route fun p => { p with created := p.created + 1 }) ?_ ?_
    (fun r => ?_) fun r => ?_
  · simp [State.countCreated]
  · simp [State.countCreated]
  all_goals rw [account_countCreated]

/-- Counting a connection as reused leaves the books balanced. -/
theorem Balanced.countReused (hs : s.Balanced) : (s.countReused route).Balanced := by
  refine hs.of_same (hs.keyed.modify route fun p => { p with reused := p.reused + 1 }) ?_ ?_
    (fun r => ?_) fun r => ?_
  · simp [State.countReused]
  · simp [State.countReused]
  all_goals rw [account_countReused]

end Waiting

/-! ## Shutting down -/

/-- The shutdown takes the idle connections out of each account. -/
theorem account_shutdown (s : State) (route : Route) :
    s.shutdown.account route = { s.account route with idle := [] } :=
  account_map s (fun p => { p with idle := [] }) rfl route

/-- The shutdown leaves the books balanced. -/
theorem Balanced.shutdown {s : State} (hs : s.Balanced) : s.shutdown.Balanced := by
  have hkeyed : s.shutdown.Keyed := hs.keyed.map fun p => { p with idle := [] }
  refine ⟨hkeyed, ?_, ?_⟩
  · show s.leasedTotal = _
    rw [hs.leased, total_congr hs.keyed hkeyed rfl fun r => by rw [account_shutdown]]
  · have hnone (r : Route) : (s.shutdown.account r).idle.length = 0 := by rw [account_shutdown]; rfl
    symm
    exact (total_eq_sum hkeyed rfl (s.shutdown.routes.map Prod.fst).toFinset (by simp)).trans
      (Finset.sum_eq_zero fun r _ => hnone r)

end PooledHttp.Pool.State
