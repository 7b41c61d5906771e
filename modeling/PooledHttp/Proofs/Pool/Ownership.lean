import PooledHttp.Proofs.Pool.Accounting

/-!
# A connection has one owner

A connection that has been opened is held by one lease, or is idle in one position of the list of its
route, or is gone for good. It never goes to a lease of another route.

Two invariants carry this. The places where a connection is, counted over all idle lists and all
leases, are at most one, and their number never grows again once the connection has been opened
(`System.Effect.places_le`). Each place belongs to the route that the connection was opened for
(`System.Routed`); that is also why a new connection is in no place yet.
-/

set_option autoImplicit false

namespace PooledHttp.Pool.System

/-- The lease has the connection to itself. -/
def HeldBy (s : System) (c : ConnId) (l : LeaseId) : Prop :=
  (s.phase? l).bind Phase.conn? = some c

/-- The connection is at this position among the idle ones of the route. -/
def IdleAt (s : System) (c : ConnId) (route : Route) (i : Nat) : Prop :=
  ((s.books.get route).idle[i]?).map IdleConnection.conn = some c

/-- The pool never uses the connection again. -/
def Gone (s : System) (c : ConnId) : Prop := ∀ t, Reaches s t → t.owns c = false

/-- The route that the connection was opened for. -/
def routeOf? (s : System) (c : ConnId) : Option Route := (s.connections[c]?).map Connection.route

/-- The number of leases that hold the connection. -/
def holders (s : System) (c : ConnId) : Nat :=
  s.leases.countP fun lease => lease.phase.conn? == some c

/-- The number of places where the connection is. -/
def places (s : System) (c : ConnId) : Nat :=
  s.books.idleCount (fun i => i.conn == c) + s.holders c

variable {s t : System} {l : LeaseId} {lease : Lease} {c : ConnId} {route : Route}

/-- A lease holds a connection exactly if it is in a phase with it. -/
theorem heldBy_iff :
    s.HeldBy c l ↔ ∃ lease, s.leases[l]? = some lease ∧ lease.phase.conn? = some c := by
  simp [HeldBy, phase?, Option.bind_eq_some_iff]

/-- A connection is idle at a place exactly if the entry there is for it. -/
theorem idleAt_iff {i : Nat} :
    s.IdleAt c route i ↔ ∃ k, (s.books.account route).idle[i]? = some k ∧ k.conn = c := by
  simp [IdleAt, State.account, RoutePool.account]

/-! ## Routes do not change -/

/-- A lease goes on asking for the route it was started for. -/
theorem Effect.leases_prefix (he : Effect s t) :
    s.leases.map Lease.route <+: t.leases.map Lease.route := by
  have hphase {u : System} {l : LeaseId} {next : Phase} (hu : u.leases = s.leases) :
      s.leases.map Lease.route <+: (u.setPhase l next).leases.map Lease.route := by
    suffices heq : (u.setPhase l next).leases.map Lease.route = s.leases.map Lease.route by
      rw [heq]
    apply List.ext_getElem?
    intro i
    simp only [setPhase, hu, List.getElem?_map, List.getElem?_modify]
    cases s.leases[i]? with
    | none => simp
    | some lease => by_cases hi : l = i <;> simp [hi]
  cases he with
  | none | close | clock | evict | shutdown | reorder => exact List.prefix_rfl
  | start route deadline => simp
  | wakeAll => simp [Function.comp_def]
  | quit | take | connect | park | ready | connected | vacate | leave | wakeOne => exact hphase rfl

/-- A connection keeps the route it was opened for. -/
theorem Effect.connections_prefix (he : Effect s t) :
    s.connections.map Connection.route <+: t.connections.map Connection.route := by
  cases he with
  | none | start | quit | ready | vacate | leave | wakeAll | wakeOne | clock | evict | shutdown
  | reorder => exact List.prefix_rfl
  | take _ _ _ hconns => exact hconns ▸ List.prefix_rfl
  | connect _ _ _ hconns => exact hconns ▸ List.prefix_rfl
  | park _ _ _ _ hconns => exact hconns ▸ List.prefix_rfl
  | close hconns => exact hconns ▸ List.prefix_rfl
  | connected => exact (List.prefix_append ..).map _

/-- What is at an index of a list is there as well in every list that begins with it. -/
theorem getElem?_of_prefix {α : Type} {xs ys : List α} (h : xs <+: ys) {i : Nat} {a : α}
    (ha : xs[i]? = some a) : ys[i]? = some a := by
  obtain ⟨rest, rfl⟩ := h
  rw [List.getElem?_append_left (List.getElem?_eq_some_iff.1 ha).1]
  exact ha

/-- A connection stays one of the route that it was opened for. -/
theorem Effect.routeOf?_eq (he : Effect s t) (hc : s.routeOf? c = some route) :
    t.routeOf? c = some route := by
  rw [routeOf?, ← List.getElem?_map] at hc ⊢
  exact getElem?_of_prefix he.connections_prefix hc

/-! ## Every place belongs to the route of the connection -/

/-- A connection is idle under its own route only, and held by leases of that route only. -/
structure Routed (s : System) : Prop where
  idle : ∀ r, ∀ i ∈ (s.books.account r).idle, s.routeOf? i.conn = some r
  held : ∀ lease ∈ s.leases, ∀ c, lease.phase.conn? = some c → s.routeOf? c = some lease.route

/-- A new pool has no connections. -/
theorem routed_init (settings : PoolSettings) : (init settings).Routed := by
  refine ⟨fun r i hi => ?_, fun lease hlease => ?_⟩
  · cases hi
  · cases hlease

/-- The invariant is kept when no place is new. -/
theorem Routed.of_subset (h : s.Routed) (he : Effect s t)
    (hidle : ∀ r, (t.books.account r).idle ⊆ (s.books.account r).idle)
    (hheld : ∀ lease ∈ t.leases, ∀ c, lease.phase.conn? = some c →
      ∃ before ∈ s.leases, before.phase.conn? = some c ∧ before.route = lease.route) :
    t.Routed := by
  refine ⟨fun r i hi => he.routeOf?_eq (h.idle r i (hidle r hi)), fun lease hlease c hc => ?_⟩
  obtain ⟨before, hmem, hconn, hroute⟩ := hheld lease hlease c hc
  exact hroute ▸ he.routeOf?_eq (h.held before hmem c hconn)

/-- The invariant is kept when one lease changes its phase, and the connections that are new for it
or new among the idle ones are of its route. -/
theorem Routed.setPhase (h : s.Routed) (he : Effect s t) (hl : s.leases[l]? = some lease)
    {next : Phase} (hleases : t.leases = (s.setPhase l next).leases)
    (hnext : ∀ c, next.conn? = some c → t.routeOf? c = some lease.route)
    (hidle : ∀ r, ∀ i ∈ (t.books.account r).idle,
      i ∈ (s.books.account r).idle ∨ t.routeOf? i.conn = some r) : t.Routed := by
  refine ⟨fun r i hi => ?_, fun other hother c hc => ?_⟩
  · exact (hidle r i hi).elim (fun hold => he.routeOf?_eq (h.idle r i hold)) id
  · rw [hleases] at hother
    rcases mem_setPhase hl hother with hold | rfl
    · exact he.routeOf?_eq (h.held other hold c hc)
    · exact hnext c hc

/-- Every effect keeps the invariant. -/
theorem Routed.effect (h : s.Routed) (hacc : s.Accounted) (he : Effect s t) : t.Routed := by
  have hbooks := hacc.balanced
  have hsame (lease : Lease) (hlease : lease ∈ s.leases) (c : ConnId)
      (hc : lease.phase.conn? = some c) :
      ∃ before ∈ s.leases, before.phase.conn? = some c ∧ before.route = lease.route :=
    ⟨lease, hlease, hc, rfl⟩
  cases he with
  | none => exact h
  | start route deadline =>
    refine h.of_subset (.start route deadline) (fun r => List.Subset.refl _) ?_
    intro lease hlease c hc
    rcases List.mem_append.1 hlease with hold | hnew
    · exact hsame lease hold c hc
    · rw [List.mem_singleton.1 hnew] at hc
      cases hc
  | quit hl hphase how =>
    exact h.setPhase (.quit hl hphase how) hl rfl (by simp [Phase.conn?]) fun r i hi => .inl hi
  | @take l lease hl hphase live still k books hclaim connections hconns hopen =>
    have he := Effect.take hl hphase hclaim hconns hopen
    obtain ⟨mid, hmid, heq, hmem, -⟩ := State.claim_reuse hbooks hclaim
    refine h.setPhase he hl rfl (fun c hc => ?_) fun r i hi => .inl ?_
    · obtain rfl : k.conn = c := by simpa [Phase.conn?] using hc
      exact he.routeOf?_eq (h.idle lease.route k hmem)
    · rw [books_setPhase, heq, State.idle_addLease] at hi
      exact (hmid.idle r).subset hi
  | @connect l lease hl hphase live still books hclaim connections hconns hopen =>
    obtain ⟨mid, hmid, heq, -⟩ := State.claim_connect hbooks hclaim
    refine h.setPhase (.connect hl hphase hclaim hconns hopen) hl rfl (by simp [Phase.conn?])
      fun r i hi => .inl ?_
    rw [books_setPhase, heq, State.idle_addLease] at hi
    exact (hmid.idle r).subset hi
  | @park l lease hl hphase hopen live still books hclaim connections hconns =>
    obtain ⟨hswept, -⟩ := State.claim_wait hbooks hclaim
    refine h.setPhase (.park hl hphase hopen hclaim hconns) hl rfl (by simp [Phase.conn?])
      fun r i hi => .inl ?_
    rw [books_setPhase, State.idle_addPending] at hi
    exact (hswept.idle r).subset hi
  | @ready l lease hl k hphase =>
    refine h.setPhase (.ready hl hphase) hl rfl (fun c hc => ?_) fun r i hi => .inl ?_
    · have hheld := h.held lease (List.mem_of_getElem? hl) k.conn (by rw [hphase]; rfl)
      obtain rfl : k.conn = c := by simpa [Phase.conn?] using hc
      exact hheld
    · rwa [books_ready, State.account_countReused] at hi
  | @connected l lease hl hphase =>
    refine h.setPhase (.connected hl hphase) hl rfl (fun c hc => ?_) fun r i hi => .inl ?_
    · obtain rfl : s.connections.length = c := by simpa [Phase.conn?] using hc
      simp [routeOf?, connected]
    · rwa [books_connected, State.account_countCreated] at hi
  | @vacate l lease hl hplace back hback next hnext =>
    refine h.setPhase (.vacate hl hplace back hback hnext) hl rfl
      (by simp [Phase.conn?_of_isOutside hnext]) fun r i hi => ?_
    rw [books_setPhase, books_finish, State.account_finishLease _ _ _ hbooks.keyed] at hi
    split at hi
    case isFalse => exact .inl hi
    case isTrue hr =>
      subst hr
      refine (List.mem_append.1 hi).imp_right fun hkept => ?_
      -- what is parked is the connection that the lease held
      have hi : i ∈ back := (Option.filter_eq_some_iff.1 (Option.mem_toList.1 hkept)).1
      exact h.held lease (List.mem_of_getElem? hl) i.conn (hback i hi)
  | @leave l lease hl hparked next hnext =>
    refine h.setPhase (.leave hl hparked hnext) hl rfl (by simp [Phase.conn?_of_isOutside hnext])
      fun r i hi => .inl ?_
    rwa [books_leave, State.idle_removePending _ hbooks.keyed] at hi
  | wakeAll owed owedByRemovals =>
    refine h.of_subset (.wakeAll owed owedByRemovals) (fun r => List.Subset.refl _) ?_
    intro other hother c hc
    obtain ⟨lease, hlease, rfl⟩ := List.mem_map.1 hother
    exact ⟨lease, hlease, by rwa [conn?_wake] at hc, (route_wake lease).symm⟩
  | wakeOne hl hparked =>
    exact h.setPhase (.wakeOne hl hparked) hl rfl (by simp [Phase.conn?]) fun r i hi => .inl hi
  | close hconns => exact h.of_subset (.close hconns) (fun r => List.Subset.refl _) hsame
  | clock time => exact h.of_subset (.clock time) (fun r => List.Subset.refl _) hsame
  | evict live keep =>
    exact h.of_subset (.evict live keep)
      (fun r => ((State.Swept.evict hbooks live keep).idle r).subset) hsame
  | shutdown hopen =>
    refine h.of_subset (.shutdown hopen) (fun r => ?_) hsame
    rw [State.account_shutdown]
    exact List.nil_subset _
  | reorder hperm =>
    refine h.of_subset (.reorder hperm) (fun r => ?_) hsame
    rw [State.account_reorder hbooks.keyed hperm]
    exact List.Subset.refl _

/-! ## The number of places -/

/-- A lease that changes its phase holds one connection less and another one more. -/
theorem holders_setPhase (hl : s.leases[l]? = some lease) {next : Phase}
    (hleases : t.leases = (s.setPhase l next).leases) (c : ConnId) :
    t.holders c + (if lease.phase.conn? = some c then 1 else 0) =
      s.holders c + if next.conn? = some c then 1 else 0 := by
  have h := countP_modify hl (fun lease => { lease with phase := next })
    fun lease => lease.phase.conn? == some c
  simpa [holders, setPhase, hleases] using h

/-- What has to be shown of the idle connections when a lease changes its phase. -/
theorem places_le_of_setPhase {next : Phase} {new : Nat} (hl : s.leases[l]? = some lease)
    (hleases : t.leases = (s.setPhase l next).leases)
    (hidle : t.books.idleCount (fun i => i.conn == c) + (if next.conn? = some c then 1 else 0) ≤
      s.books.idleCount (fun i => i.conn == c) +
        (if lease.phase.conn? = some c then 1 else 0) + new) :
    t.places c ≤ s.places c + new := by
  have hholders := holders_setPhase hl hleases c
  simp only [places]
  omega

/-- A lease that holds no connection afterwards may have parked the one it held. -/
theorem places_le_of_none {next : Phase} {new : Nat} (hl : s.leases[l]? = some lease)
    (hleases : t.leases = (s.setPhase l next).leases) (hnext : next.conn? = none)
    (hidle : t.books.idleCount (fun i => i.conn == c) ≤
      s.books.idleCount (fun i => i.conn == c) + if lease.phase.conn? = some c then 1 else 0) :
    t.places c ≤ s.places c + new := by
  refine places_le_of_setPhase hl hleases ?_
  rw [hnext, if_neg nofun]
  omega

/-- An effect adds no place to a connection, unless it opens it. -/
theorem Effect.places_le (he : Effect s t) (hacc : s.Accounted) (c : ConnId) :
    t.places c ≤ s.places c + if c = s.connections.length then 1 else 0 := by
  have hbooks := hacc.balanced
  cases he with
  | none | close | clock => exact Nat.le_add_right _ _
  | start route deadline => simp [places, holders, Phase.conn?]
  | quit hl hphase how => exact places_le_of_none hl rfl rfl (Nat.le_add_right _ _)
  | @take l lease hl hphase live still k books hclaim connections hconns =>
    obtain ⟨mid, hmid, rfl, -, -, hcount⟩ := State.claim_reuse hbooks hclaim
    have htaken := hcount fun i => i.conn == c
    refine places_le_of_setPhase hl rfl ?_
    rw [books_setPhase, State.idleCount_congr hmid.balanced.keyed
      (hmid.balanced.addLease lease.route).keyed (State.idle_addLease mid lease.route)]
    simp only [beq_iff_eq, Phase.conn?, Option.some.injEq] at htaken ⊢
    omega
  | @connect l lease hl hphase live still books hclaim connections hconns =>
    obtain ⟨mid, hmid, rfl, -⟩ := State.claim_connect hbooks hclaim
    have hfewer := hmid.idleCount_le hbooks fun i => i.conn == c
    refine places_le_of_none hl rfl rfl (Nat.le_add_right_of_le ?_)
    rwa [books_setPhase, State.idleCount_congr hmid.balanced.keyed
      (hmid.balanced.addLease lease.route).keyed (State.idle_addLease mid lease.route)]
  | @park l lease hl hphase hopen live still books hclaim connections hconns =>
    obtain ⟨hswept, -⟩ := State.claim_wait hbooks hclaim
    have hfewer := hswept.idleCount_le hbooks fun i => i.conn == c
    refine places_le_of_none hl rfl rfl (Nat.le_add_right_of_le ?_)
    rwa [books_setPhase, State.idleCount_congr hswept.balanced.keyed
      (hswept.balanced.addPending lease.route).keyed (State.idle_addPending lease.route)]
  | @ready l lease hl k hphase =>
    refine places_le_of_setPhase hl rfl ?_
    rw [books_ready, State.idleCount_congr hbooks.keyed (hbooks.countReused lease.route).keyed
      fun r => by rw [State.account_countReused], hphase]
    exact Nat.le_add_right _ _
  | @connected l lease hl hphase =>
    refine places_le_of_setPhase hl rfl ?_
    rw [books_connected, State.idleCount_congr hbooks.keyed (hbooks.countCreated lease.route).keyed
      fun r => by rw [State.account_countCreated], hphase]
    simp [Phase.conn?, eq_comm]
  | @vacate l lease hl hplace back hback next hnext =>
    refine places_le_of_none hl rfl (Phase.conn?_of_isOutside hnext) ?_
    rw [books_setPhase, books_finish, State.idleCount_finishLease _ _ _ hbooks.keyed]
    -- only the connection that the lease held can be parked
    cases hkept : s.books.kept s.live back with
    | none => exact Nat.le_add_right _ _
    | some i =>
      have hi := hback i (Option.filter_eq_some_iff.1 hkept).1
      simp [hi]
  | @leave l lease hl hparked next hnext =>
    refine places_le_of_none hl rfl (Phase.conn?_of_isOutside hnext) (Nat.le_add_right_of_le ?_)
    rw [books_leave, State.idleCount_congr hbooks.keyed (State.keyed_removePending _ hbooks.keyed)
      (State.idle_removePending lease.route hbooks.keyed)]
  | wakeAll => simp [places, holders, List.countP_map, Function.comp_def]
  | wakeOne hl hparked => exact places_le_of_none hl rfl rfl (Nat.le_add_right _ _)
  | evict live keep =>
    have hfewer := (State.Swept.evict hbooks live keep).idleCount_le hbooks fun i => i.conn == c
    exact Nat.le_add_right_of_le (Nat.add_le_add_right hfewer _)
  | shutdown =>
    have hfewer : s.books.shutdown.idleCount (fun i => i.conn == c) ≤
        s.books.idleCount fun i => i.conn == c :=
      State.total_mono hbooks.keyed hbooks.shutdown.keyed rfl fun r => by
        rw [State.account_shutdown]
        exact Nat.zero_le _
    exact Nat.le_add_right_of_le (Nat.add_le_add_right hfewer _)
  | reorder hperm =>
    have hsame := State.idleCount_congr hbooks.keyed (hbooks.keyed.reorder hperm)
      (fun r => congrArg Account.idle (State.account_reorder hbooks.keyed hperm r))
      fun i => i.conn == c
    exact Nat.le_add_right_of_le (Nat.add_le_add_right hsame.le _)

/-! ## Places along a run -/

/-- A connection without places is not owned, and one with places is. -/
theorem owns_eq_false_iff : s.owns c = false ↔ s.places c = 0 := by
  rw [places, Nat.add_eq_zero_iff, State.idleCount_eq_zero_iff]
  simp [owns, holders]

/-- A connection that has not been opened is in no place. -/
theorem Routed.places_eq_zero (h : s.Routed) (hacc : s.Accounted) (hc : s.routeOf? c = none) :
    s.places c = 0 := by
  rw [places, Nat.add_eq_zero_iff, State.idleCount_eq_zero_iff, holders, List.countP_eq_zero]
  refine ⟨fun e he i hi => ?_, fun lease hlease hheld => ?_⟩
  · by_contra hconn
    have hroute := h.idle e.1 i (by rwa [State.account_of_mem hacc.balanced.keyed he])
    obtain rfl : i.conn = c := by simpa using hconn
    rw [hc] at hroute
    cases hroute
  · have hroute := h.held lease hlease c (by simpa using hheld)
    rw [hc] at hroute
    cases hroute

/-- What owners and places amount to in a state of a run. -/
structure Owning (s : System) : Prop where
  accounted : s.Accounted
  routed : s.Routed
  once : ∀ c, s.places c ≤ 1

/-- In a new pool, nothing is owned. -/
theorem owning_init (settings : PoolSettings) : (init settings).Owning :=
  ⟨accounted_init settings, routed_init settings, fun _ => Nat.zero_le _⟩

/-- Every effect keeps the invariant. -/
theorem Owning.effect (h : s.Owning) (he : Effect s t) : t.Owning := by
  refine ⟨h.accounted.effect he, h.routed.effect h.accounted he, fun c => ?_⟩
  have hplaces := he.places_le h.accounted c
  split at hplaces
  case isTrue hnew =>
    have hzero : s.places c = 0 :=
      h.routed.places_eq_zero h.accounted (by simp [routeOf?, hnew])
    omega
  case isFalse => exact hplaces.trans (h.once c)

/-- The invariant holds in every state of every run. -/
theorem Reachable.owning {settings : PoolSettings} (h : Reachable settings s) : s.Owning :=
  h.induction (owning_init settings) fun _ _ hmove hs => hs.effect hmove.effect

/-- Along a run, a connection that has been opened keeps its route and gets no new places, and a
lease keeps its route. -/
structure Continues (s t : System) : Prop where
  owning : t.Owning
  leases : s.leases.map Lease.route <+: t.leases.map Lease.route
  connections : s.connections.map Connection.route <+: t.connections.map Connection.route
  places_le : ∀ c < s.connections.length, t.places c ≤ s.places c

/-- A run from a state that satisfies the invariant. -/
theorem Owning.continues (h : s.Owning) (hst : Reaches s t) : Continues s t := by
  induction hst with
  | refl => exact ⟨h, List.prefix_rfl, List.prefix_rfl, fun _ _ => Nat.le_refl _⟩
  | tail _ hlast ih =>
    have he := hlast.effect
    refine ⟨ih.owning.effect he, ih.leases.trans he.leases_prefix,
      ih.connections.trans he.connections_prefix, fun c hc => ?_⟩
    have hlength := ih.connections.length_le
    simp only [List.length_map] at hlength
    have hplaces := he.places_le ih.owning.accounted c
    rw [if_neg (hc.trans_le hlength).ne] at hplaces
    exact hplaces.trans (ih.places_le c hc)

/-! ## Owners -/

/-- A list has at most one index of what is counted at most once. -/
theorem index_unique {α : Type} {xs : List α} {q : α → Bool} (hcount : xs.countP q ≤ 1) {i j : Nat}
    {a b : α} (hi : xs[i]? = some a) (hj : xs[j]? = some b) (ha : q a = true) (hb : q b = true) :
    i = j := by
  induction xs generalizing i j with
  | nil => simp at hi
  | cons x xs ih =>
    rw [List.countP_cons] at hcount
    have hrest {k : Nat} {y : α} (hk : xs[k]? = some y) (hy : q y = true) : 0 < xs.countP q :=
      List.countP_pos_iff.2 ⟨y, List.mem_of_getElem? hk, hy⟩
    cases i with
    | zero =>
      cases j with
      | zero => rfl
      | succ j =>
        obtain rfl : x = a := by simpa using hi
        have hpos := hrest (by simpa using hj) hb
        rw [if_pos ha] at hcount
        omega
    | succ i =>
      cases j with
      | zero =>
        obtain rfl : x = b := by simpa using hj
        have hpos := hrest (by simpa using hi) ha
        rw [if_pos hb] at hcount
        omega
      | succ j =>
        have hij := ih (by omega) (by simpa using hi) (by simpa using hj)
        rw [hij]

/-- A connection has holders exactly if some lease holds it. -/
theorem holders_pos_iff : 0 < s.holders c ↔ ∃ l, s.HeldBy c l := by
  rw [holders, List.countP_pos_iff]
  constructor
  · rintro ⟨lease, hlease, hc⟩
    obtain ⟨l, hl⟩ := List.mem_iff_getElem?.1 hlease
    exact ⟨l, heldBy_iff.2 ⟨lease, hl, by simpa using hc⟩⟩
  · rintro ⟨l, hheld⟩
    obtain ⟨lease, hl, hc⟩ := heldBy_iff.1 hheld
    exact ⟨lease, List.mem_of_getElem? hl, by simpa using hc⟩

/-- A connection is counted as idle exactly if it is idle at some place. -/
theorem idleCount_pos_iff (hbooks : s.books.Balanced) :
    0 < s.books.idleCount (fun i => i.conn == c) ↔ ∃ route i, s.IdleAt c route i := by
  constructor
  · intro hpos
    by_contra hnone
    refine hpos.ne' (State.idleCount_eq_zero_iff.2 fun e he k hk => ?_)
    by_contra hc
    obtain ⟨i, hi⟩ := List.mem_iff_getElem?.1 hk
    refine hnone ⟨e.1, i, idleAt_iff.2 ⟨k, ?_, by simpa using hc⟩⟩
    rwa [State.account_of_mem hbooks.keyed he]
  · rintro ⟨route, i, hidle⟩
    obtain ⟨k, hi, hc⟩ := idleAt_iff.1 hidle
    have hroute : 0 < (s.books.account route).idle.countP fun i => i.conn == c :=
      List.countP_pos_iff.2 ⟨k, List.mem_of_getElem? hi, by simpa using hc⟩
    exact hroute.trans_le (State.le_total (m := fun a => a.idle.countP fun i => i.conn == c)
      hbooks.keyed rfl route)

/-- No two leases hold the same connection. -/
theorem Owning.heldBy_unique (h : s.Owning) {l l' : LeaseId} (hl : s.HeldBy c l)
    (hl' : s.HeldBy c l') : l = l' := by
  obtain ⟨lease, hlease, hc⟩ := heldBy_iff.1 hl
  obtain ⟨lease', hlease', hc'⟩ := heldBy_iff.1 hl'
  have honce : s.holders c ≤ 1 := (Nat.le_add_left _ _).trans (h.once c)
  exact index_unique honce hlease hlease' (by simpa using hc) (by simpa using hc')

/-- A connection is idle under its own route. -/
theorem Routed.route_of_idleAt (h : s.Routed) {i : Nat} (hi : s.IdleAt c route i) :
    s.routeOf? c = some route := by
  obtain ⟨k, hk, rfl⟩ := idleAt_iff.1 hi
  exact h.idle route k (List.mem_of_getElem? hk)

/-- No connection is idle at two places. -/
theorem Owning.idleAt_unique (h : s.Owning) {route' : Route} {i i' : Nat}
    (hi : s.IdleAt c route i) (hi' : s.IdleAt c route' i') : route = route' ∧ i = i' := by
  have hroute : some route = some route' :=
    (h.routed.route_of_idleAt hi).symm.trans (h.routed.route_of_idleAt hi')
  obtain rfl : route = route' := Option.some.inj hroute
  obtain ⟨k, hk, hc⟩ := idleAt_iff.1 hi
  obtain ⟨k', hk', hc'⟩ := idleAt_iff.1 hi'
  have hidle := State.le_total (m := fun a => a.idle.countP fun i => i.conn == c)
    h.accounted.balanced.keyed rfl route
  have honce : s.books.idleCount (fun i => i.conn == c) ≤ 1 :=
    (Nat.le_add_right _ _).trans (h.once c)
  exact ⟨rfl, index_unique (hidle.trans honce) hk hk' (by simpa using hc) (by simpa using hc')⟩

/-- A connection that has been opened and is in no place will never be in one again. -/
theorem Owning.gone (h : s.Owning) (hc : c < s.connections.length) (hzero : s.places c = 0) :
    s.Gone c := by
  intro t hst
  rw [owns_eq_false_iff, ← Nat.le_zero, ← hzero]
  exact (h.continues hst).places_le c hc

/-- Each connection that has been opened is held by exactly one lease, or is in exactly one position
of the idle connections of exactly one route, or is never used again. From then on it is idle only
under the route it was opened for, and held only by leases that were started for this route. -/
theorem connection_in_one_place {settings : PoolSettings} (h : Reachable settings s)
    {connection : Connection} (hc : s.connections[c]? = some connection) :
    ((∃! l, s.HeldBy c l) ∧ (∀ route i, ¬ s.IdleAt c route i) ∨
        (∀ l, ¬ s.HeldBy c l) ∧ (∃! p : Route × Nat, s.IdleAt c p.1 p.2) ∨ s.Gone c) ∧
      ∀ t, Reaches s t →
        (∀ route i, t.IdleAt c route i → route = connection.route) ∧
        (∀ l lease, t.leases[l]? = some lease → t.HeldBy c l → lease.route = connection.route) ∧
        s.leases.map Lease.route <+: t.leases.map Lease.route := by
  have hown := h.owning
  have hlength : c < s.connections.length := (List.getElem?_eq_some_iff.1 hc).1
  have honce := hown.once c
  refine ⟨?_, fun t hst => ?_⟩
  · by_cases hheld : 0 < s.holders c
    · have hnoIdle : ¬ 0 < s.books.idleCount fun i => i.conn == c := by
        simp only [places] at honce
        omega
      rw [idleCount_pos_iff hown.accounted.balanced] at hnoIdle
      obtain ⟨l, hl⟩ := holders_pos_iff.1 hheld
      exact .inl ⟨⟨l, hl, fun l' hl' => hown.heldBy_unique hl' hl⟩,
        fun route i hi => hnoIdle ⟨route, i, hi⟩⟩
    · by_cases hidle : 0 < s.books.idleCount fun i => i.conn == c
      · obtain ⟨route, i, hi⟩ := (idleCount_pos_iff hown.accounted.balanced).1 hidle
        refine .inr (.inl ⟨fun l hl => hheld (holders_pos_iff.2 ⟨l, hl⟩), (route, i), hi, ?_⟩)
        rintro ⟨route', i'⟩ hi'
        exact Prod.ext_iff.2 (hown.idleAt_unique hi' hi)
      · have hzero : s.places c = 0 := by
          simp only [places]
          omega
        exact .inr (.inr (hown.gone hlength hzero))
  · have hcontinues := hown.continues hst
    have hroute : t.routeOf? c = some connection.route := by
      rw [routeOf?, ← List.getElem?_map]
      exact getElem?_of_prefix hcontinues.connections (by simp [hc])
    refine ⟨fun route i hi => ?_, fun l lease hl hheld => ?_, hcontinues.leases⟩
    · rw [hcontinues.owning.routed.route_of_idleAt hi] at hroute
      exact Option.some.inj hroute
    · obtain ⟨_, hl', hconn⟩ := heldBy_iff.1 hheld
      obtain rfl := Option.some.inj (hl.symm.trans hl')
      rw [hcontinues.owning.routed.held lease (List.mem_of_getElem? hl) c hconn] at hroute
      exact Option.some.inj hroute

/-- A connection that was parked and taken again belongs to the second lease alone. -/
theorem connection_in_one_place_reused :
    let settings : PoolSettings := ⟨1, 1, .standard⟩
    let route : Route := ⟨.http, ['h'], 80⟩
    let s := (init settings).run
      [.start route none, .claim 0 [], .connected 0, .release 0 5, .start route none, .claim 1 [],
        .ready 1]
    s.connections[0]? = some ⟨route, true⟩ ∧ s.HeldBy 0 1 ∧ ∃! l, s.HeldBy 0 l := by
  intro settings route s
  have hreachable : Reachable settings s := reaches_run _ _
  have hheld : s.HeldBy 0 1 := by
    rw [HeldBy]
    decide
  have hopened : s.connections[0]? = some ⟨route, true⟩ := by decide
  refine ⟨hopened, hheld, ?_⟩
  rcases (connection_in_one_place hreachable hopened).1 with ⟨honce, -⟩ | ⟨hnone, -⟩ | hgone
  · exact honce
  · exact absurd hheld (hnone 1)
  · exact absurd (hgone s .refl) (by decide)

end PooledHttp.Pool.System
