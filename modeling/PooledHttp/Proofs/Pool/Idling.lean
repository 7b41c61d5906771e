import PooledHttp.Proofs.Pool.Closing
import PooledHttp.Proofs.Pool.Deciding
import PooledHttp.Proofs.Pool.Histories
import PooledHttp.Proofs.Pool.Parting

/-!
# Idle periods

A lease that hands its connection back enters it among the idle ones with the time from which it may
not be used any more. As long as the connection is idle the entry does not change, and no other entry
has the same connection (`System.Rests`). The period ends when a claim takes the connection, or when one
of the operations that remove idle connections does not keep it. A claim and a removal of expired
connections keep no connection whose time is over; a connection whose time is not over and that is open
is lost to a claim only if the claim takes it or closes it to make room.
-/

set_option autoImplicit false

namespace PooledHttp.Pool

/-- The acts that remove idle connections. -/
def Act.removes : Act → Bool
  | .event (.claim _ _) | .event .closeExpired | .event (.closeIdle _) | .event .shutdown
  | .aside (.evict _ _) => true
  | _ => false

namespace State

variable {s t : State} {settings : PoolSettings} {live still : ConnId → Bool} {now : Millis}
  {route r : Route} {outcome : Claim} {k : IdleConnection}

/-- What is idle after the dead connections have been removed. -/
theorem mem_idle_closeExpired (hs : s.Balanced) :
    k ∈ ((s.closeExpired live now).2.account r).idle ↔
      k ∈ (s.account r).idle ∧ k.isReusable live now = true := by
  rw [account_closeExpired hs.keyed]
  exact List.mem_filter

/-- A connection that is taken was not dead. -/
theorem reusable_of_claim (hs : s.Balanced)
    (h : s.claim settings live still now route = (.reuse k, t)) :
    k ∈ (s.account route).idle ∧ k.isReusable live now = true := by
  rw [← mem_idle_closeExpired hs]
  cases claimed h with
  | reuse hidle =>
    rw [hidle]
    exact List.mem_append_cons_self

/-- A connection that is not dead stays idle in a claim, unless it is taken, or closed to make room for
a new one. -/
theorem idle_claim (hs : s.Balanced) (h : s.claim settings live still now route = (outcome, t))
    (hk : k ∈ (s.account r).idle) (hlive : k.isReusable live now = true)
    (hstill : k.isReusable still now = true) :
    k ∈ (t.account r).idle ∨ outcome = .reuse k ∨
      outcome = .connect ∧ settings.maxTotal ≤ s.leasedTotal + s.idleTotal := by
  have hclean := (mem_idle_closeExpired hs).2 ⟨hk, hlive⟩
  have hthin {left : List IdleConnection}
      (hsub : left.Sublist ((s.closeExpired live now).2.account route).idle)
      (hleft : r = route → k ∈ left) :
      k ∈ (((s.closeExpired live now).2.thin route fun _ => left).account r).idle := by
    rw [account_thin (f := fun _ => left) hsub]
    split
    case isTrue hr => exact hleft hr
    case isFalse => exact hclean
  -- where none of the route is usable, the connection is one of another route
  have hrest (hnone : ∀ d ∈ ((s.closeExpired live now).2.account route).idle,
      d.isReusable still now = false) :
      k ∈ (((s.closeExpired live now).2.thin route fun _ => []).account r).idle := by
    apply hthin (List.nil_sublist _)
    rintro rfl
    rw [hnone k hclean] at hstill
    cases hstill
  cases claimed h with
  | @reuse older newer c hidle hnewer =>
    by_cases hc : c = k
    · exact .inr (.inl (hc ▸ rfl))
    · left
      rw [idle_addLease]
      apply hthin (hidle ▸ List.sublist_append_left ..)
      rintro rfl
      rw [hidle, List.mem_append, List.mem_cons] at hclean
      rcases hclean with hold | rfl | hnew
      · exact hold
      · exact absurd rfl hc
      · rw [hnewer k hnew] at hstill
        cases hstill
  | wait hswept hnone =>
    rw [hswept]
    exact .inl (hrest hnone)
  | connect hswept hnone =>
    rw [idle_addLease, hswept]
    exact .inl (hrest hnone)
  | evict hswept _ _ hfull =>
    obtain ⟨hfewer, -⟩ := swept_of_eq hs hswept
    have hleased := hfewer.leasedTotal
    have hidle := hfewer.idleTotal_le hs
    exact .inr (.inr ⟨rfl, by omega⟩)

end State

namespace System

variable {s t : System} {a : Act} {l : LeaseId} {lease : Lease} {c : ConnId} {r : Route}
  {k : IdleConnection}

/-- The connection is idle. -/
def Idle (s : System) (c : ConnId) : Prop := ∃ r i, s.IdleAt c r i

/-- The entry is among the idle ones. -/
def Parks (s : System) (k : IdleConnection) : Prop := ∃ r, k ∈ (s.books.account r).idle

/-- A connection is idle exactly if an entry for it is parked. -/
theorem idle_iff : s.Idle c ↔ ∃ k, s.Parks k ∧ k.conn = c := by
  constructor
  · rintro ⟨r, i, hi⟩
    obtain ⟨k, hk, hc⟩ := idleAt_iff.1 hi
    exact ⟨k, ⟨r, List.mem_of_getElem? hk⟩, hc⟩
  · rintro ⟨k, ⟨r, hk⟩, hc⟩
    obtain ⟨i, hi⟩ := List.mem_iff_getElem?.1 hk
    exact ⟨r, i, idleAt_iff.2 ⟨k, hi, hc⟩⟩

/-- The connection of a parked entry is idle. -/
theorem Parks.idle (h : s.Parks k) : s.Idle k.conn := idle_iff.2 ⟨k, h, rfl⟩

/-! ## What an act takes and parks -/

/-- Where a lease changes its phase, it may come to hold a connection, and the others hold theirs.
-/
theorem heldBy_of_setPhase {m : LeaseId} {next : Phase}
    (hleases : t.leases = (s.setPhase m next).leases) (h : t.HeldBy c l) :
    l = m ∧ next.conn? = some c ∨ s.HeldBy c l := by
  obtain ⟨phase, hphase, hc⟩ := Option.bind_eq_some_iff.1 h
  rcases phase?_of_setPhase hleases hphase with ⟨rfl, rfl⟩ | hbefore
  · exact .inl ⟨rfl, hc⟩
  · exact .inr (Option.bind_eq_some_iff.2 ⟨phase, hbefore, hc⟩)

/-- A lease that holds a connection held it before, or has opened it, or has taken it in a claim that
found its time not over. -/
theorem heldBy_of_act (hacc : s.Accounted) (h : (s.act a).HeldBy c l) :
    s.HeldBy c l ∨ c = s.connections.length ∨ ∃ failing k, a = .event (.claim l failing) ∧
      s.Parks k ∧ k.conn = c ∧ k.isExpired s.now = false := by
  have hprogress := progress hacc a
  generalize s.act a = t at h hprogress
  cases hprogress with
  | @ready m lease i hl hphase =>
    rcases heldBy_of_setPhase rfl h with ⟨rfl, hc⟩ | hbefore
    · exact .inl (heldBy_of_lease hl (by rw [hphase]; exact hc))
    · exact .inl hbefore
  | @connected m lease hl hphase =>
    rcases heldBy_of_setPhase rfl h with ⟨rfl, hc⟩ | hbefore
    · exact .inr (.inl (Option.some.inj hc).symm)
    · exact .inl hbefore
  | @release m lease held hl hphase keepAlive =>
    rcases heldBy_of_setPhase rfl h with ⟨rfl, hc⟩ | hbefore
    · cases hc
    · exact .inl hbefore
  | @claim m lease hl hphase hopen failing connections hconns outcome books hclaim =>
    rcases heldBy_of_setPhase rfl h with ⟨rfl, hc⟩ | hbefore
    · cases outcome with
      | connect | wait => cases hc
      | reuse i =>
        obtain ⟨hmem, hreusable⟩ := State.reusable_of_claim hacc.balanced hclaim
        refine .inr (.inr ⟨failing, i, rfl, ⟨lease.route, hmem⟩, Option.some.inj hc, ?_⟩)
        simp only [IdleConnection.isReusable, Bool.and_eq_true, Bool.not_eq_true'] at hreusable
        exact hreusable.1
    · exact .inl hbefore
  | quiet hquiet =>
    obtain ⟨phase, hphase, hc⟩ := Option.bind_eq_some_iff.1 h
    have hbefore := hquiet.places l phase hphase (Phase.hasPlace_of_conn hc)
    exact .inl (Option.bind_eq_some_iff.2 ⟨phase, hbefore, hc⟩)

/-- A connection that is idle was idle before, with the same entry, or has just been handed back. -/
theorem parks_of_act (hacc : s.Accounted) (h : (s.act a).Parks k) :
    s.Parks k ∨ ∃ l keepAlive, a = .event (.release l keepAlive) ∧ s.HeldBy k.conn l ∧
      k.idleSince = s.now ∧ k.expiry = if keepAlive = 0 then none else some (s.now + keepAlive) := by
  obtain ⟨r, hk⟩ := h
  have hbooks := hacc.balanced
  have hprogress := progress hacc a
  generalize s.act a = t at hk hprogress
  cases hprogress with
  | ready hl hphase =>
    rw [books_ready, State.account_countReused] at hk
    exact .inl ⟨r, hk⟩
  | connected hl hphase =>
    rw [books_connected, State.account_countCreated] at hk
    exact .inl ⟨r, hk⟩
  | @release m lease held hl hphase keepAlive =>
    rcases idle_release hbooks hk with hold | rfl
    · exact .inl ⟨r, hold⟩
    · exact .inr ⟨m, keepAlive, rfl, heldBy_of_lease hl (by rw [hphase]; rfl), rfl, rfl⟩
  | @claim m lease hl hphase hopen failing connections hconns outcome books hclaim =>
    rw [books_setPhase, idle_record] at hk
    have hclean := State.idle_of_claim hbooks hclaim hk
    exact .inl ⟨r, ((State.mem_idle_closeExpired hbooks).1 hclean).1⟩
  | quiet hquiet => exact .inl ⟨r, (hquiet.idle r).subset hk⟩

/-! ## What is kept through an idle period -/

/-- No lease holds the connection, and wherever it is idle, its entry is this one. -/
structure Rests (s : System) (k : IdleConnection) : Prop where
  owning : s.Owning
  opened : k.conn < s.connections.length
  unheld : ∀ l, ¬ s.HeldBy k.conn l
  entry : ∀ i, s.Parks i → i.conn = k.conn → i = k

/-- A parked entry is at rest. -/
theorem Owning.rests (h : s.Owning) (hk : s.Parks k) : s.Rests k := by
  obtain ⟨r, hk⟩ := hk
  refine ⟨h, ?_, h.not_held_of_idle hk, ?_⟩
  · obtain ⟨connection, hconnection, -⟩ := Option.map_eq_some_iff.1 (h.routed.idle r k hk)
    exact (List.getElem?_eq_some_iff.1 hconnection).1
  · rintro i ⟨r', hi⟩ hc
    exact h.idle_unique hi hk hc

/-- While it rests, a connection that is idle has this entry. -/
theorem Rests.parks (h : s.Rests k) (hidle : s.Idle k.conn) : s.Parks k := by
  obtain ⟨i, hi, hc⟩ := idle_iff.1 hidle
  exact h.entry i hi hc ▸ hi

/-- A connection that is at rest and not idle is gone. -/
theorem Rests.gone (h : s.Rests k) (hidle : ¬ s.Idle k.conn) : s.Gone k.conn := by
  apply h.owning.gone h.opened
  have hnone : s.books.idleCount (fun i => i.conn == k.conn) = 0 := by
    by_contra hsome
    exact hidle ((idleCount_pos_iff h.owning.accounted.balanced).1 (Nat.pos_of_ne_zero hsome))
  have hunheld : s.holders k.conn = 0 := by
    by_contra hsome
    obtain ⟨l, hl⟩ := holders_pos_iff.1 (Nat.pos_of_ne_zero hsome)
    exact h.unheld l hl
  rw [places, hnone, hunheld]

/-- An act that parks nothing with this connection keeps the entry. -/
theorem Rests.entry_act (h : s.Rests k) {i : IdleConnection} (hi : (s.act a).Parks i)
    (hc : i.conn = k.conn) : i = k := by
  rcases parks_of_act h.owning.accounted hi with hbefore | ⟨l, keepAlive, -, hheld, -⟩
  · exact h.entry i hbefore hc
  · rw [hc] at hheld
    exact absurd hheld (h.unheld l)

/-- Who holds the connection after an act has claimed it from its idle period before its time was
over. -/
theorem Rests.heldBy_act (h : s.Rests k) (hheld : (s.act a).HeldBy k.conn l) :
    ∃ failing, a = .event (.claim l failing) ∧ s.Parks k ∧ k.isExpired s.now = false := by
  rcases heldBy_of_act h.owning.accounted hheld with hbefore | hnew | ⟨failing, i, ha, hi, hc, hlater⟩
  · exact absurd hbefore (h.unheld l)
  · exact absurd hnew h.opened.ne
  · obtain rfl := h.entry i hi hc
    exact ⟨failing, ha, hi, hlater⟩

/-- Any act but a claim that takes the connection leaves it at rest. -/
theorem Rests.act (h : s.Rests k) (hnot : ∀ l, ¬ (s.act a).HeldBy k.conn l) :
    (s.act a).Rests k := by
  have hcontinues := h.owning.continues (reaches_act s a)
  have hlength := hcontinues.connections.length_le
  simp only [List.length_map] at hlength
  exact ⟨hcontinues.owning, h.opened.trans_le hlength, hnot, fun i hi hc => h.entry_act hi hc⟩

/-- An act that is no claim leaves what is at rest as it is. -/
theorem Rests.act_of_ne (h : s.Rests k) (hnot : ∀ l failing, a ≠ .event (.claim l failing)) :
    (s.act a).Rests k := by
  apply h.act
  intro l hheld
  obtain ⟨failing, ha, -⟩ := h.heldBy_act hheld
  exact hnot l failing ha

/-! ## How an idle period ends -/

/-- A lease that ends leaves a parked entry parked. -/
theorem Parks.finish (hacc : s.Accounted) (hk : s.Parks k) (route : Route)
    (back : Option IdleConnection) : (s.finish route back).Parks k := by
  obtain ⟨r, hk⟩ := hk
  refine ⟨r, ?_⟩
  rw [books_finish, State.account_finishLease _ _ _ hacc.balanced.keyed]
  split
  case isTrue hr =>
    subst hr
    exact List.mem_append_left _ hk
  case isFalse => exact hk

/-- A lease that leaves the waiting room leaves a parked entry parked. -/
theorem Parks.leave (hacc : s.Accounted) (hk : s.Parks k) (l : LeaseId) (lease : Lease)
    (next : Phase) : (s.leave l lease next).Parks k := by
  obtain ⟨r, hk⟩ := hk
  refine ⟨r, ?_⟩
  rwa [books_leave, State.idle_removePending _ hacc.balanced.keyed]

/-- What a lease does, unless it claims, leaves a parked entry parked. -/
theorem Parks.stepLease (hacc : s.Accounted) (hk : s.Parks k) (l : LeaseId) (lease : Lease)
    {e : Event} (he : (Act.event e).removes = false) : (s.stepLease l lease e).Parks k := by
  have hfinish (back : Option IdleConnection) (next : Phase) :
      ((s.finish lease.route back).setPhase l next).Parks k := hk.finish hacc lease.route back
  cases e with
  | ready =>
    simp only [System.stepLease]
    split
    case h_1 => exact hk.imp fun r hk => by rwa [books_ready, State.account_countReused]
    case h_2 => exact hk
  | connected =>
    simp only [System.stepLease]
    split
    case isTrue => exact hk.imp fun r hk => by rwa [books_connected, State.account_countCreated]
    case isFalse => exact hk
  | unready | drop | release =>
    simp only [System.stepLease]
    split
    case h_1 => exact hfinish _ _
    case h_2 => exact hk
  | refused =>
    simp only [System.stepLease]
    split
    case isTrue => exact hfinish _ _
    case isFalse => exact hk
  | resume | expire =>
    simp only [System.stepLease]
    split
    case isTrue => exact hk.leave hacc l lease _
    case isFalse => exact hk
  | cancel =>
    show (s.cancel l lease).Parks k
    unfold System.cancel
    split
    case h_2 => exact hk.leave hacc l lease _
    case h_3 | h_4 => exact hfinish _ _
    case h_1 | h_5 | h_6 => exact hk
  | claim | closeExpired | closeIdle | shutdown => cases he
  | start | broadcast | broadcastRemoval | closed | tick => exact hk

/-- All other acts leave idle what is idle. -/
theorem Parks.act (hacc : s.Accounted) (hk : s.Parks k) (ha : a.removes = false) :
    (s.act a).Parks k := by
  cases a with
  | event e =>
    show (s.step e).Parks k
    cases hl : e.lease? with
    | some l =>
      rw [step_lease hl]
      cases s.leases[l]? with
      | none => exact hk
      | some lease => exact hk.stepLease hacc l lease ha
    | none =>
      cases e with
      | start | closed => exact hk
      | broadcast | broadcastRemoval | tick =>
        simp only [step]
        split <;> exact hk
      | closeExpired | closeIdle | shutdown => cases ha
      | claim | ready | unready | connected | refused | resume | expire | cancel | release | drop =>
        cases hl
  | aside other =>
    cases other with
    | clock => exact hk
    | evict => cases ha
    | reorder routes =>
      simp only [System.act, aside]
      split
      case isTrue hperm =>
        exact hk.imp fun r hk => by rwa [State.account_reorder hacc.balanced.keyed hperm]
      case isFalse => exact hk
    | wakeEarly =>
      simp only [System.act, aside]
      split <;> exact hk
    | expireWoken l =>
      simp only [System.act, aside]
      split
      case h_2 => exact hk
      case h_1 lease hl =>
        split
        case isTrue => exact hk.leave hacc l lease _
        case isFalse => exact hk

/-- A removal keeps the connection if it finds it open and its entry worth keeping; otherwise it is
gone. -/
theorem Rests.evict (h : s.Rests k) (hk : s.Parks k) (ht : t.Rests k) (live : ConnId → Bool)
    (keep : IdleConnection → Bool) (hbooks : t.books = (s.books.evict live keep).2) :
    (t.Idle k.conn ↔ live k.conn = true ∧ keep k = true) ∧
      (¬ (live k.conn = true ∧ keep k = true) → t.Gone k.conn) := by
  have hparks : t.Parks k ↔ live k.conn = true ∧ keep k = true := by
    simp only [Parks, hbooks, State.account_evict h.owning.accounted.balanced.keyed]
    constructor
    · rintro ⟨r, hmem⟩
      simpa using (List.mem_filter.1 hmem).2
    · intro hkept
      obtain ⟨r, hmem⟩ := hk
      exact ⟨r, List.mem_filter.2 ⟨hmem, by simpa using hkept⟩⟩
  have hidle : t.Idle k.conn ↔ live k.conn = true ∧ keep k = true :=
    ⟨fun hidle => hparks.1 (ht.parks hidle), fun hkept => (hparks.2 hkept).idle⟩
  exact ⟨hidle, fun hnot => ht.gone (mt hidle.1 hnot)⟩

/-- What is open after some connections have been closed was open before. -/
theorem live_of_closed (failing : List ConnId)
    (h : (failing.foldl closeConnection s).live c = true) : s.live c = true := by
  induction failing generalizing s with
  | nil => exact h
  | cons d failing ih =>
    have hbefore := ih h
    simp only [live, closeConnection, List.getElem?_modify] at hbefore ⊢
    cases hc : s.connections[c]? with
    | none => simp [hc] at hbefore
    | some connection =>
      simp only [hc, Option.map_eq_map, Option.map_some, Option.any_some] at hbefore ⊢
      split at hbefore
      · cases hbefore
      · exact hbefore

/-- A claim removes a connection whose time is over. One whose time is not over stays idle, unless the
lease takes it, it has been closed, or there is no room for the connection that the lease is to open. -/
theorem Rests.claim (h : s.Rests k) (hk : s.Parks k) (hopen : s.books.closed = false)
    (hl : s.leases[l]? = some lease) (hphase : lease.phase = .claiming) (failing : List ConnId)
    (ht : t = s.step (.claim l failing)) :
    (k.isExpired s.now = true → t.Gone k.conn) ∧
      (k.isExpired s.now = false → t.Idle k.conn ∨ t.HeldBy k.conn l ∨ t.live k.conn = false ∨
        t.phase? l = some .connecting ∧
          s.settings.maxTotal ≤ s.books.leasedTotal + s.books.idleTotal) := by
  have hbooks := h.owning.accounted.balanced
  obtain ⟨outcome, books, hclaim⟩ : ∃ outcome books, s.books.claim s.settings s.live
      (failing.foldl closeConnection s).live s.now lease.route = (outcome, books) := ⟨_, _, rfl⟩
  have hafter : t = { failing.foldl closeConnection s with
      books := outcome.record lease.route books }.setPhase l outcome.phase := by
    rw [ht, step_of_lease (e := .claim l failing) rfl hl, stepLease, if_pos hphase,
      claim_eq hopen hclaim]
  obtain ⟨connections, -, hconns⟩ := foldl_closeConnection (s := s) failing
  have hlease : ({ failing.foldl closeConnection s with
      books := outcome.record lease.route books } : System).leases[l]? = some lease := by
    rw [hconns]
    exact hl
  have hphase' : t.phase? l = some outcome.phase := by
    rw [hafter]
    exact phase?_of_lease (getElem?_setPhase hlease _)
  have hidle (r : Route) : (t.books.account r).idle = (books.account r).idle := by
    rw [hafter, books_setPhase, idle_record]
  constructor
  · -- what has expired is removed before anything is taken
    intro hover
    have hunheld (m : LeaseId) : ¬ t.HeldBy k.conn m := by
      intro hheld
      rw [ht] at hheld
      obtain ⟨-, -, -, hlater⟩ := h.heldBy_act (a := .event (.claim l failing)) hheld
      rw [hover] at hlater
      cases hlater
    have hrests : t.Rests k := by
      subst ht
      exact h.act (a := .event (.claim l failing)) hunheld
    apply hrests.gone
    intro hstill
    obtain ⟨r, hmem⟩ := hrests.parks hstill
    rw [hidle] at hmem
    have hclean := State.idle_of_claim hbooks hclaim hmem
    have hreusable := ((State.mem_idle_closeExpired hbooks).1 hclean).2
    simp [IdleConnection.isReusable, hover] at hreusable
  · intro hlater
    obtain ⟨r, hmem⟩ := hk
    cases hlive : t.live k.conn with
    | false => exact .inr (.inr (.inl rfl))
    | true =>
      have hstill : (failing.foldl closeConnection s).live k.conn = true := by
        rw [hafter] at hlive
        exact hlive
      have hbefore := live_of_closed failing hstill
      rcases State.idle_claim hbooks hclaim hmem (by simp [IdleConnection.isReusable, hlater, hbefore])
        (by simp [IdleConnection.isReusable, hlater, hstill]) with hstays | rfl | ⟨rfl, hfull⟩
      · left
        have hparks : t.Parks k := ⟨r, by rwa [hidle]⟩
        exact hparks.idle
      · refine .inr (.inl (Option.bind_eq_some_iff.2 ⟨_, hphase', rfl⟩))
      · exact .inr (.inr (.inr ⟨hphase', hfull⟩))

end System
end PooledHttp.Pool
