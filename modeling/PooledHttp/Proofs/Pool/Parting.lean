import PooledHttp.Proofs.Pool.Ownership
import PooledHttp.Proofs.Pool.Phases

/-!
# A lease and its connection part

A lease that has taken or opened a connection holds it until one of four events: the connection turns
out not to be ready, the lease is cancelled while it finds that out, the connection is given up, or it
is handed back. At that moment the place in the pool is free again. The connection is idle from then
on if it was handed back, is open, and the pool is not shut down; otherwise nobody ever holds it again
(`System.Parting`). Nothing else takes a connection away from its lease (`System.heldBy_step`,
`System.heldBy_aside`).
-/

set_option autoImplicit false

namespace PooledHttp.Pool

/-- A lease with a connection occupies a place. -/
theorem Phase.hasPlace_of_conn {p : Phase} {c : ConnId} (h : p.conn? = some c) :
    p.hasPlace = true := by
  cases p with
  | readying | held => rfl
  | claiming | connecting | parked | ended => cases h

namespace System

variable {s t u : System} {l m : LeaseId} {lease : Lease} {c : ConnId} {route : Route}

/-- Between `s` and `t`, a lease of the route has given back its place and parted with its connection,
which is idle if `kept` holds and is gone otherwise. -/
structure Parting (s t : System) (c : ConnId) (route : Route) (kept : Prop) : Prop where
  leasedTotal : t.books.leasedTotal + 1 = s.books.leasedTotal
  leased : (t.books.get route).leased + 1 = (s.books.get route).leased
  idle : (∃ r i, t.IdleAt c r i) ↔ kept
  gone : ¬ kept → t.Gone c

/-- A connection that a lease holds is in no other place. -/
theorem Owning.idleCount_of_held (h : s.Owning) (hheld : s.HeldBy c l) :
    s.books.idleCount (fun i => i.conn == c) = 0 ∧ s.holders c = 1 := by
  have hpos : 0 < s.holders c := holders_pos_iff.2 ⟨l, hheld⟩
  have honce := h.once c
  simp only [places] at honce
  omega

/-- A connection that is held is not idle. -/
theorem Owning.not_idle_of_held (h : s.Owning) (hheld : s.HeldBy c l) (r : Route) (i : Nat) :
    ¬ s.IdleAt c r i := by
  intro hidle
  have hpos := (idleCount_pos_iff h.accounted.balanced).2 ⟨r, i, hidle⟩
  exact hpos.ne' (h.idleCount_of_held hheld).1

/-- No lease holds a connection that is idle. -/
theorem Owning.not_held_of_idle (h : s.Owning) {r : Route} {i : IdleConnection}
    (hi : i ∈ (s.books.account r).idle) (l : LeaseId) : ¬ s.HeldBy i.conn l := by
  intro hheld
  obtain ⟨j, hj⟩ := List.mem_iff_getElem?.1 hi
  exact h.not_idle_of_held hheld r j (idleAt_iff.2 ⟨i, hj, rfl⟩)

/-- A connection is idle with one expiry and one count of uses. -/
theorem Owning.idle_unique (h : s.Owning) {r r' : Route} {i i' : IdleConnection}
    (hi : i ∈ (s.books.account r).idle) (hi' : i' ∈ (s.books.account r').idle)
    (hc : i.conn = i'.conn) : i = i' := by
  obtain ⟨j, hj⟩ := List.mem_iff_getElem?.1 hi
  obtain ⟨j', hj'⟩ := List.mem_iff_getElem?.1 hi'
  obtain ⟨rfl, rfl⟩ := h.idleAt_unique (idleAt_iff.2 ⟨i, hj, hc⟩) (idleAt_iff.2 ⟨i', hj', rfl⟩)
  exact Option.some.inj (hj.symm.trans hj')

/-- A connection that is held has been opened. -/
theorem Owning.lt_length_of_held (h : s.Owning) (hl : s.leases[l]? = some lease)
    (hc : lease.phase.conn? = some c) : c < s.connections.length := by
  have hroute := h.routed.held lease (List.mem_of_getElem? hl) c hc
  obtain ⟨connection, hconnection, -⟩ := Option.map_eq_some_iff.1 hroute
  exact (List.getElem?_eq_some_iff.1 hconnection).1

/-- The lease gives back its place, and its connection is kept or not. -/
theorem Owning.parting (h : s.Owning) (hl : s.leases[l]? = some lease)
    (hc : lease.phase.conn? = some c) (back : Option IdleConnection)
    (hback : ∀ k ∈ back, k.conn = c) (next : Phase) (hnext : next.isOutside = true) :
    Parting s ((s.finish lease.route back).setPhase l next) c lease.route
      (back.isSome = true ∧ s.books.closed = false ∧ s.live c = true) := by
  have hbooks := h.accounted.balanced
  have hplace := Phase.hasPlace_of_conn hc
  have hleased := h.accounted.leased_pos hl hplace
  have hheld : s.HeldBy c l := heldBy_iff.2 ⟨lease, hl, hc⟩
  obtain ⟨hnone, hone⟩ := h.idleCount_of_held hheld
  have heffect : Effect s ((s.finish lease.route back).setPhase l next) :=
    .vacate hl hplace back (fun k hk => (hback k hk).symm ▸ hc) hnext
  have hafter := h.effect heffect
  -- the lease was the only holder
  have hholders := holders_setPhase (t := (s.finish lease.route back).setPhase l next) hl rfl c
  rw [if_pos hc, if_neg (by rw [Phase.conn?_of_isOutside hnext]; nofun), hone] at hholders
  have hcount : ((s.finish lease.route back).setPhase l next).books.idleCount
      (fun i => i.conn == c) = (s.books.kept s.live back).toList.countP fun i => i.conn == c := by
    rw [books_setPhase, books_finish, State.idleCount_finishLease _ _ _ hbooks.keyed, hnone,
      Nat.zero_add]
  have hkept : 0 < (s.books.kept s.live back).toList.countP (fun i => i.conn == c) ↔
      back.isSome = true ∧ s.books.closed = false ∧ s.live c = true := by
    cases back with
    | none => simp [State.kept]
    | some k =>
      obtain rfl := hback k rfl
      cases hclosed : s.books.closed <;> cases hlive : s.live k.conn <;>
        simp [State.kept, Option.filter, hclosed, hlive]
  have hidle : (∃ r i, ((s.finish lease.route back).setPhase l next).IdleAt c r i) ↔
      back.isSome = true ∧ s.books.closed = false ∧ s.live c = true := by
    rw [← idleCount_pos_iff hafter.accounted.balanced, hcount, hkept]
  refine ⟨?_, ?_, hidle, fun hnot => ?_⟩
  · have hle := State.leased_le hbooks lease.route
    rw [books_setPhase, books_finish, State.leasedTotal_finishLease]
    omega
  · have haccount := State.account_finishLease s.live lease.route back hbooks.keyed lease.route
    rw [if_pos rfl] at haccount
    have hfewer := congrArg Account.leased haccount
    simp only [State.account, RoutePool.account] at hfewer hleased
    rw [books_setPhase, books_finish]
    omega
  · have hlength := h.lt_length_of_held hl hc
    refine hafter.gone hlength ?_
    rw [← hkept, ← hcount] at hnot
    simp only [places]
    omega

/-- What is kept can be said in another way. -/
theorem Parting.congr {kept kept' : Prop} (h : Parting s t c route kept) (hiff : kept ↔ kept') :
    Parting s t c route kept' :=
  ⟨h.leasedTotal, h.leased, h.idle.trans hiff, fun hnot => h.gone (mt hiff.1 hnot)⟩

/-- After the parting, no lease holds the connection. -/
theorem Parting.not_heldBy {kept : Prop} (h : Parting s t c route kept) (hown : t.Owning)
    (l : LeaseId) : ¬ t.HeldBy c l := by
  intro hheld
  by_cases hkept : kept
  · obtain ⟨r, i, hidle⟩ := h.idle.2 hkept
    exact hown.not_idle_of_held hheld r i hidle
  · have hnone := owns_eq_false_iff.1 (h.gone hkept t .refl)
    have hpos := holders_pos_iff.2 ⟨l, hheld⟩
    simp only [places] at hnone
    omega

/-- What happens afterwards without touching the books changes nothing about the parting. -/
theorem Parting.trans_books {kept : Prop} (h : Parting s t c route kept) (htu : Reaches t u)
    (hbooks : u.books = t.books) : Parting s u c route kept where
  leasedTotal := hbooks ▸ h.leasedTotal
  leased := hbooks ▸ h.leased
  idle := by
    have hidle := h.idle
    simp only [IdleAt] at hidle ⊢
    rwa [hbooks]
  gone hnot v hv := h.gone hnot v (htu.trans hv)

/-! ## Events that part a lease from its connection -/

/-- A lease that gives back its place without its connection closes it. -/
theorem Owning.parting_none (h : s.Owning) (hl : s.leases[l]? = some lease)
    (hc : lease.phase.conn? = some c) {next : Phase} (hnext : next.isOutside = true) :
    Parting s ((s.finish lease.route none).setPhase l next) c lease.route False := by
  simpa using h.parting hl hc none nofun next hnext

/-- A lease that finds its idle connection closed parts with it for good. -/
theorem Owning.parting_unready (h : s.Owning) (hl : s.leases[l]? = some lease) {k : IdleConnection}
    (hphase : lease.phase = .readying k) :
    Parting s (s.step (.unready l)) k.conn lease.route False := by
  have hstep : s.step (.unready l) = (s.finish lease.route none).setPhase l .claiming := by
    simp [step_of_lease (e := .unready l) rfl hl, stepLease, hphase]
  rw [hstep]
  exact h.parting_none hl (by rw [hphase]; rfl) rfl

/-- A lease that is dropped parts with its connection for good. -/
theorem Owning.parting_drop (h : s.Owning) (hl : s.leases[l]? = some lease) {k : Held}
    (hphase : lease.phase = .held k) :
    Parting s (s.step (.drop l)) k.conn lease.route False := by
  have hstep : s.step (.drop l) = (s.finish lease.route none).setPhase l (.ended .dropped) := by
    simp [step_of_lease (e := .drop l) rfl hl, stepLease, hphase]
  rw [hstep]
  exact h.parting_none hl (by rw [hphase]; rfl) rfl

/-- A lease that is released parts with its connection, which is kept if it and the pool are open.
-/
theorem Owning.parting_release (h : s.Owning) (hl : s.leases[l]? = some lease) {k : Held}
    (hphase : lease.phase = .held k) (keepAlive : Millis) :
    Parting s (s.step (.release l keepAlive)) k.conn lease.route
      (s.books.closed = false ∧ s.live k.conn = true) := by
  have hstep : s.step (.release l keepAlive) = s.release l lease k keepAlive := by
    simp [step_of_lease (e := .release l keepAlive) rfl hl, stepLease, hphase]
  have hconn : lease.phase.conn? = some k.conn := by rw [hphase]; rfl
  have hparting := h.parting hl hconn
    (some ⟨k.conn, s.now, if keepAlive = 0 then none else some (s.now + keepAlive), k.createdAt,
      k.useCount⟩) (fun i hi => by rw [← Option.some.inj hi]) (.ended .released) rfl
  rw [hstep, release]
  simpa using hparting

/-- A lease that is cancelled while its connection is not ready yet. -/
theorem Owning.parting_cancel (h : s.Owning) (hl : s.leases[l]? = some lease) {k : IdleConnection}
    (hphase : lease.phase = .readying k) :
    Parting s (s.step (.cancel l)) k.conn lease.route False ∧
      (s.step (.cancel l)).leases[l]? = some { lease with phase := .ended .cancelled } := by
  have hstep : s.step (.cancel l) = (s.finish lease.route none).setPhase l (.ended .cancelled) := by
    simp [step_of_lease (e := .cancel l) rfl hl, stepLease, cancel, hphase]
  rw [hstep]
  exact ⟨h.parting_none hl (by rw [hphase]; rfl) rfl,
    getElem?_setPhase (s := s.finish lease.route none) hl _⟩

/-! ## What leaves a connection with its lease -/

/-- A lease in a phase with a connection holds it. -/
theorem heldBy_of_lease (hl : s.leases[l]? = some lease) (hc : lease.phase.conn? = some c) :
    s.HeldBy c l := heldBy_iff.2 ⟨lease, hl, hc⟩

/-- A lease that has been woken holds what it held before. -/
theorem heldBy_of_wake (hl : s.leases[l]? = some (wake lease)) (hc : lease.phase.conn? = some c) :
    s.HeldBy c l := heldBy_of_lease hl (by rwa [conn?_wake])

/-- Events of other leases leave a connection with its lease. -/
theorem heldBy_step_other (hheld : s.HeldBy c l) {e : Event} (he : e.lease? ≠ some l) :
    (s.step e).HeldBy c l := by
  obtain ⟨lease, hl, hc⟩ := heldBy_iff.1 hheld
  rcases step_other hl he with hsame | hwoken
  · exact heldBy_of_lease hsame hc
  · exact heldBy_of_wake hwoken hc

/-- Only the lease itself gives up its connection, unless the connection is not ready. -/
theorem Owning.heldBy_step (h : s.Owning) (hl : s.leases[l]? = some lease)
    (hc : lease.phase.conn? = some c) {e : Event} (he : e.yields? ≠ some l) :
    (s.step e).HeldBy c l ∨ Parting s (s.step e) c lease.route False := by
  by_cases hm : e.lease? = some l
  · cases hphase : lease.phase with
    | claiming | connecting | parked | ended =>
      rw [hphase] at hc
      cases hc
    | held k =>
      obtain ⟨next, hnext, honward⟩ := step_onward hl he
      have hsame : next = lease.phase := by
        rw [hphase] at honward ⊢
        exact honward.of_held
      exact .inl (heldBy_of_lease hnext (hsame ▸ hc))
    | readying k =>
      have hconn : k.conn = c := by simpa [hphase, Phase.conn?] using hc
      subst hconn
      have hstay : s.HeldBy k.conn l := heldBy_of_lease hl hc
      cases e with
      | claim | connected | refused | resume | expire =>
        exact .inl (by simpa [step_of_lease hm hl, stepLease, hphase] using hstay)
      | ready m =>
        obtain rfl : m = l := Option.some.inj hm
        have hstep : s.step (.ready m) = s.ready m lease k := by
          simp [step_of_lease hm hl, stepLease, hphase]
        rw [hstep]
        exact .inl (heldBy_of_lease (getElem?_setPhase (s := { s with books := _ }) hl _) rfl)
      | unready m =>
        obtain rfl : m = l := Option.some.inj hm
        exact .inr (h.parting_unready hl hphase)
      | cancel | release | drop => exact absurd hm he
      | start | broadcast | broadcastRemoval | closed | tick | closeExpired | closeIdle | shutdown =>
        cases hm
  · exact .inl (heldBy_step_other (heldBy_of_lease hl hc) hm)

/-- No aside takes a connection away from its lease. -/
theorem heldBy_aside (hl : s.leases[l]? = some lease) (hc : lease.phase.conn? = some c) (a : Aside) :
    (s.aside a).HeldBy c l := by
  rcases aside_cases hl a with hsame | hwoken | ⟨-, hparked, -⟩
  · exact heldBy_of_lease hsame hc
  · exact heldBy_of_wake hwoken hc
  · rw [hparked] at hc
    cases hc

end System
end PooledHttp.Pool
