import PooledHttp.Proofs.Pool.Histories
import PooledHttp.Proofs.Pool.Parting

/-!
# The counters tell the history

The pool counts the connections that it has created and reused, each route does so while it has an
entry, and each connection counts the leases that have held it. None of these counts is looked at when
a claim is decided, and none is kept in the same step as the claim that it is about.

A lease is answered when it comes to hold a connection. `System.answers` are the answers in a list of
acts, read off the leases and the connections alone, and `System.Counters` says that all the counts are
counts of answers, in every state of every run.
-/

set_option autoImplicit false

namespace PooledHttp.Pool

/-- A lease has come to hold a connection. -/
structure Answer where
  lease : LeaseId
  route : Route
  conn : ConnId
  /-- Whether the connection had been opened before. -/
  reused : Bool

/-- The connection of a lease that has one, with the number of leases that have held it. -/
def Phase.tally? : Phase → Option (ConnId × Nat)
  | .readying c => some (c.conn, c.useCount)
  | .held h => some (h.conn, h.useCount)
  | .claiming | .connecting | .parked _ | .ended _ => none

/-- Whether the lease is opening a connection. -/
def Phase.isConnecting : Phase → Bool
  | .connecting => true
  | .claiming | .readying _ | .parked _ | .held _ | .ended _ => false

/-- A lease that counts for a connection has it. -/
theorem Phase.conn?_of_tally {p : Phase} {c : ConnId} {n : Nat} (h : p.tally? = some (c, n)) :
    p.conn? = some c := by
  cases p with
  | readying | held => exact congrArg (Option.map Prod.fst) h
  | claiming | connecting | parked | ended => cases h

/-- A lease that has a connection is not opening one. -/
theorem Phase.isConnecting_of_conn {p : Phase} {c : ConnId} (h : p.conn? = some c) :
    p.isConnecting = false := by
  cases p <;> first | rfl | cases h

/-- A parked lease is not opening a connection. -/
theorem Phase.isConnecting_of_isParked {p : Phase} (h : p.isParked = true) :
    p.isConnecting = false := by
  cases p <;> first | rfl | cases h

/-- A lease that is not in progress any more does not get into progress again. -/
theorem Phase.Onward.done {closed expires : Bool} {p q : Phase} (h : p.Onward closed expires q)
    (hp : p.inProgress = false) : q.inProgress = false := by
  cases h with
  | stay => exact hp
  | refuse | take | connect | park | ready | unready | connected | refused | wake | resume | expire =>
    cases hp

namespace System

/-- The answer that an act gives. -/
def answer? (s : System) : Act → Option Answer
  | .event e => e.lease?.bind fun l => ((s.step e).leases[l]?).bind fun lease =>
    match s.held? l, lease.phase with
    | none, .held h => some ⟨l, lease.route, h.conn, decide (h.conn < s.connections.length)⟩
    | _, _ => none
  | .aside _ => none

/-- The answers that a list of acts gives. -/
def answers (s : System) : List Act → List Answer
  | [] => []
  | a :: acts => (s.answer? a).toList ++ (s.act a).answers acts

/-- During the act, or after it, the books have no entry for the route. -/
def Forgets (s : System) (a : Act) (route : Route) : Prop :=
  ∃ books ∈ s.stages a ++ [(s.act a).books], books.find? route = none

/-- The number of leases that are opening a connection. -/
def connecting (s : System) : Nat := s.leases.countP fun lease => lease.phase.isConnecting

/-- The connection is idle or belongs to a lease, and this is the number of leases that have held
it. -/
def Tallied (s : System) (c : ConnId) (n : Nat) : Prop :=
  (∃ l, (s.phase? l).bind Phase.tally? = some (c, n)) ∨
    ∃ r, ∃ i ∈ (s.books.account r).idle, i.conn = c ∧ i.useCount = n

/-- The acts of a run are `before`, then `a`, and then `later`. The route has an entry throughout
`later`, but not throughout `a`. -/
structure EntrySince (s : System) (route : Route) (before : List Act) (a : Act) (later : List Act) :
    Prop where
  made : (s.play before).Forgets a route
  kept : ∀ us b vs, later = us ++ b :: vs → ¬ (s.play (before ++ a :: us)).Forgets b route

/-- The two figures count the answers that the leases of the route have got since its entry was last
made. -/
def CountsSinceEntry (s : System) (acts : List Act) (route : Route) (created reused : Nat) : Prop :=
  ∃ before a later, acts = before ++ a :: later ∧ s.EntrySince route before a later ∧
    created = ((s.play (before ++ [a])).answers later).countP
      (fun x => x.route == route && !x.reused) ∧
    reused = ((s.play (before ++ [a])).answers later).countP
      (fun x => x.route == route && x.reused)

/-- What the counts are counts of, when the pool `s` was new and then `acts` have happened. -/
structure Counters (s : System) (acts : List Act) : Prop where
  /-- The connections that the pool has created are those that have been opened, and each has been the
  answer to a lease. -/
  created : (s.play acts).stats.created = (s.answers acts).countP fun x => !x.reused
  opened : (s.play acts).stats.created = (s.play acts).connections.length
  reused : (s.play acts).stats.reused = (s.answers acts).countP Answer.reused
  answered : (s.play acts).stats.created + (s.play acts).stats.reused = (s.answers acts).length
  /-- No lease is answered twice. -/
  once : ((s.answers acts).map Answer.lease).Nodup
  /-- The counts of the pool only grow, whatever becomes of the routes. -/
  grow : ∀ more, (s.play acts).stats.created ≤ (s.play (acts ++ more)).stats.created ∧
    (s.play acts).stats.reused ≤ (s.play (acts ++ more)).stats.reused
  /-- The entry of a route in the books counts the answers since it was last made. -/
  entry : ∀ route p, (s.play acts).books.find? route = some p →
    s.CountsSinceEntry acts route p.created p.reused
  /-- The figures of a route are reported while it has an entry, and are those of the entry. -/
  known : ∀ route, (s.play acts).routeStats? route = none ↔ (s.play acts).books.find? route = none
  figures : ∀ route figures, (s.play acts).routeStats? route = some figures →
    s.CountsSinceEntry acts route figures.created figures.reused
  sumCreated : State.sumOver (s.play acts).books.routes (fun p => p.created) ≤
    (s.play acts).stats.created
  sumReused : State.sumOver (s.play acts).books.routes (fun p => p.reused) ≤
    (s.play acts).stats.reused
  /-- Places are taken up by connections that have been created, or are being. -/
  places : (s.play acts).stats.leased + (s.play acts).stats.available ≤
    (s.play acts).stats.created + (s.play acts).connecting
  useCount : ∀ l h, (s.play acts).held? l = some h →
    h.useCount = (s.answers acts).countP fun x => x.conn == h.conn

variable {s t : System} {l m : LeaseId} {lease : Lease} {c : ConnId} {n : Nat}

/-- The answers of a run are those of its first part and then those of the rest. -/
theorem answers_append (s : System) (acts more : List Act) :
    s.answers (acts ++ more) = s.answers acts ++ (s.play acts).answers more := by
  induction acts generalizing s with
  | nil => rfl
  | cons a acts ih => simp only [List.cons_append, answers, ih, List.append_assoc]; rfl

/-- One more act adds its answer, if it gives one. -/
theorem answers_concat (s : System) (acts : List Act) (a : Act) :
    s.answers (acts ++ [a]) = s.answers acts ++ ((s.play acts).answer? a).toList := by
  rw [answers_append, answers, answers, List.append_nil]

/-! ## Which acts give an answer -/

/-- What a lease holds is told by its phase. -/
theorem held?_eq_some {h : Held} : s.held? l = some h ↔
    ∃ lease, s.leases[l]? = some lease ∧ lease.phase = .held h := by
  unfold held? phase?
  cases s.leases[l]? with
  | none => simp
  | some lease => cases hphase : lease.phase <;> simp [hphase]

/-- A lease that is in no holding phase holds nothing. -/
theorem held?_of_lease (hl : s.leases[l]? = some lease) (hphase : ∀ h, lease.phase ≠ .held h) :
    s.held? l = none := by
  rw [Option.eq_none_iff_forall_ne_some]
  intro h hheld
  obtain ⟨other, hother, hphase'⟩ := held?_eq_some.1 hheld
  obtain rfl : lease = other := Option.some.inj (hl.symm.trans hother)
  exact hphase h hphase'

/-- An act gives no answer when all leases that hold a connection afterwards have held it before. -/
theorem answer?_eq_none {a : Act}
    (h : ∀ l k, (s.act a).held? l = some k → s.held? l = some k) : s.answer? a = none := by
  cases a with
  | aside => rfl
  | event e =>
    cases hl : e.lease? with
    | none => simp [answer?, hl]
    | some l =>
      cases hlease : (s.step e).leases[l]? with
      | none => simp [answer?, hl, hlease]
      | some lease =>
        simp only [answer?, hl, hlease, Option.bind_some]
        split
        case h_1 k hnone hphase =>
          have hheld := h l k (held?_eq_some.2 ⟨lease, hlease, hphase⟩)
          rw [hnone] at hheld
          cases hheld
        case h_2 => rfl

/-- A lease that takes an idle connection into use is answered with it, as a reused one. -/
theorem answer?_ready (hown : s.Owning) (hl : s.leases[l]? = some lease) {i : IdleConnection}
    (hphase : lease.phase = .readying i) :
    s.answer? (.event (.ready l)) = some ⟨l, lease.route, i.conn, true⟩ := by
  have hstep : s.step (.ready l) = s.ready l lease i := by
    simp [step_of_lease (e := .ready l) rfl hl, stepLease, hphase]
  have hafter : (s.ready l lease i).leases[l]? = some { lease with
      phase := .held ⟨i.conn, i.createdAt, i.useCount + 1, true⟩ } :=
    getElem?_setPhase (s := { s with books := _ }) hl _
  have hnone : s.held? l = none := held?_of_lease hl (by simp [hphase])
  have hopened : i.conn < s.connections.length := hown.lt_length_of_held hl (by rw [hphase]; rfl)
  simp [answer?, Event.lease?, hstep, hafter, hnone, hopened]

/-- A lease whose connection is opened is answered with the next one, as a new one. -/
theorem answer?_connected (hl : s.leases[l]? = some lease) (hphase : lease.phase = .connecting) :
    s.answer? (.event (.connected l)) = some ⟨l, lease.route, s.connections.length, false⟩ := by
  have hstep : s.step (.connected l) = s.connected l lease := by
    simp [step_of_lease (e := .connected l) rfl hl, stepLease, hphase]
  have hafter : (s.connected l lease).leases[l]? = some { lease with
      phase := .held ⟨s.connections.length, s.now, 1, false⟩ } :=
    getElem?_setPhase (s := { s with books := _, connections := _ }) hl _
  have hnone : s.held? l = none := held?_of_lease hl (by simp [hphase])
  simp [answer?, Event.lease?, hstep, hafter, hnone]

/-- Where a lease changes to a phase that holds nothing, the others hold what they held. -/
theorem held?_of_setPhase {next : Phase} (hleases : t.leases = (s.setPhase l next).leases)
    (hnext : ∀ k, next ≠ .held k) {k : Held} (h : t.held? m = some k) : s.held? m = some k := by
  obtain ⟨lease, hlease, hphase⟩ := held?_eq_some.1 h
  have hafter := phase?_of_lease hlease
  rw [hphase] at hafter
  rcases phase?_of_setPhase hleases hafter with ⟨-, hheld⟩ | hsame
  · exact absurd hheld.symm (hnext k)
  · obtain ⟨was, hwas, hbefore⟩ := Option.map_eq_some_iff.1 hsame
    exact held?_eq_some.2 ⟨was, hwas, hbefore⟩

/-- During a quiet act, no lease comes to hold anything. -/
theorem Quiet.held? (h : Quiet s t) {k : Held} (hheld : t.held? l = some k) :
    s.held? l = some k := by
  obtain ⟨lease, hlease, hphase⟩ := held?_eq_some.1 hheld
  have hbefore := h.places l (.held k) (by rw [phase?_of_lease hlease, hphase]) rfl
  obtain ⟨was, hwas, hwasHeld⟩ := Option.map_eq_some_iff.1 hbefore
  exact held?_eq_some.2 ⟨was, hwas, hwasHeld⟩

/-! ## The number of leases that have held a connection -/

/-- A connection that a lease counts for is tallied. -/
theorem tallied_of_lease (hl : s.leases[l]? = some lease)
    (htally : lease.phase.tally? = some (c, n)) : s.Tallied c n :=
  .inl ⟨l, by rw [phase?_of_lease hl, Option.bind_some, htally]⟩

/-- A connection has one tally, since it is in one place. -/
theorem Owning.tallied_unique (h : s.Owning) {m : Nat} (hn : s.Tallied c n) (hm : s.Tallied c m) :
    n = m := by
  have hheld {l : LeaseId} {k : Nat} (hk : (s.phase? l).bind Phase.tally? = some (c, k)) :
      s.HeldBy c l := by
    obtain ⟨phase, hphase, htally⟩ := Option.bind_eq_some_iff.1 hk
    rw [HeldBy, hphase, Option.bind_some, Phase.conn?_of_tally htally]
  rcases hn with ⟨l, hl⟩ | ⟨r, i, hi, hc, rfl⟩ <;> rcases hm with ⟨l', hl'⟩ | ⟨r', i', hi', hc', rfl⟩
  · obtain rfl := h.heldBy_unique (hheld hl) (hheld hl')
    rw [hl] at hl'
    simpa using hl'
  · exact absurd (hc' ▸ hheld hl) (h.not_held_of_idle hi' l)
  · exact absurd (hc ▸ hheld hl') (h.not_held_of_idle hi l')
  · rw [h.idle_unique hi hi' (hc.trans hc'.symm)]

/-- A tally is not new when one lease changes its phase, and the tallies of its new phase and of the
idle connections are not. -/
theorem tallied_of_setPhase {next : Phase} (hleases : t.leases = (s.setPhase l next).leases)
    (hnext : next.tally? = some (c, n) → s.Tallied c n)
    (hidle : ∀ r, ∀ i ∈ (t.books.account r).idle, i.conn = c → i.useCount = n → s.Tallied c n)
    (h : t.Tallied c n) : s.Tallied c n := by
  rcases h with ⟨m, hm⟩ | ⟨r, i, hi, hc, hn⟩
  · obtain ⟨phase, hphase, htally⟩ := Option.bind_eq_some_iff.1 hm
    rcases phase?_of_setPhase hleases hphase with ⟨-, rfl⟩ | hsame
    · exact hnext htally
    · exact .inl ⟨m, by rw [hsame, Option.bind_some, htally]⟩
  · exact hidle r i hi hc hn

/-- During a quiet act, no connection comes to be tallied otherwise. -/
theorem Quiet.tallied (h : Quiet s t) (htallied : t.Tallied c n) : s.Tallied c n := by
  rcases htallied with ⟨m, hm⟩ | ⟨r, i, hi, hc, hn⟩
  · obtain ⟨phase, hphase, htally⟩ := Option.bind_eq_some_iff.1 hm
    have hplace := Phase.hasPlace_of_conn (Phase.conn?_of_tally htally)
    exact .inl ⟨m, by rw [h.places m phase hphase hplace, Option.bind_some, htally]⟩
  · exact .inr ⟨r, i, (h.idle r).subset hi, hc, hn⟩

/-- A connection that is handed back keeps its tally. -/
theorem tallied_release (hbooks : s.books.Balanced) (hl : s.leases[l]? = some lease) {k : Held}
    (hphase : lease.phase = .held k) {keepAlive : Millis}
    (h : (s.release l lease k keepAlive).Tallied c n) : s.Tallied c n := by
  refine tallied_of_setPhase (t := s.release l lease k keepAlive) rfl nofun ?_ h
  intro r i hi hc hn
  rcases idle_release hbooks hi with hold | rfl
  · exact .inr ⟨r, i, hold, hc, hn⟩
  · obtain rfl : k.conn = c := hc
    obtain rfl : k.useCount = n := hn
    exact tallied_of_lease hl (by rw [hphase]; rfl)

/-- A connection that is taken keeps its tally. -/
theorem tallied_claim (hbooks : s.books.Balanced) {live still : ConnId → Bool} {outcome : Claim}
    {books : State} {route : Route} {connections : List Connection}
    (hclaim : s.books.claim s.settings live still s.now route = (outcome, books))
    (h : ({ s with books := outcome.record route books, connections := connections }.setPhase l
      outcome.phase).Tallied c n) : s.Tallied c n := by
  refine tallied_of_setPhase (t := { s with
    books := outcome.record route books, connections := connections }.setPhase l outcome.phase)
    rfl ?_ ?_ h
  · intro htally
    cases outcome with
    | connect | wait => cases htally
    | reuse i =>
      obtain ⟨_, -, -, hmem, -⟩ := State.claim_reuse hbooks hclaim
      obtain ⟨rfl, rfl⟩ := Prod.mk.inj (Option.some.inj htally)
      exact .inr ⟨route, i, hmem, rfl, rfl⟩
  · intro r i hi hc hn
    rw [books_setPhase, idle_record] at hi
    have hclean := State.idle_of_claim hbooks hclaim hi
    have hbefore := ((State.Swept.evict hbooks live _).idle r).subset hclean
    exact .inr ⟨r, i, hbefore, hc, hn⟩

/-! ## The counts along a run -/

/-- A lease that has got its connection, or is over, stays so. -/
theorem act_done {p : Phase} (hp : s.phase? l = some p) (hdone : p.inProgress = false) (a : Act) :
    ∃ q, (s.act a).phase? l = some q ∧ q.inProgress = false := by
  obtain ⟨lease, hl, rfl⟩ := Option.map_eq_some_iff.1 hp
  cases a with
  | aside a =>
    obtain ⟨next, hnext, honward | ⟨-, hparked⟩⟩ := aside_onward hl a
    · exact ⟨next, phase?_of_lease hnext, honward.done hdone⟩
    · rw [hparked] at hdone
      cases hdone
  | event e =>
    by_cases hyields : e.yields? = some l
    · have hstep := step_of_lease (Event.lease?_of_yields hyields) hl
      have hcases : s.step e = s ∨ ∃ how, (s.step e).leases = (s.setPhase l (.ended how)).leases := by
        rw [hstep]
        cases hphase : lease.phase with
        | claiming | readying | connecting | parked =>
          rw [hphase] at hdone
          cases hdone
        | held k =>
          cases e with
          | cancel => exact .inl (by simp [stepLease, cancel, hphase])
          | release => exact .inr ⟨.released, by simp [stepLease, hphase, release, setPhase, finish]⟩
          | drop => exact .inr ⟨.dropped, by simp [stepLease, hphase, setPhase, finish]⟩
          | _ => cases hyields
        | ended how =>
          cases e with
          | cancel | release | drop => exact .inl (by simp [stepLease, cancel, hphase])
          | _ => cases hyields
      show ∃ q, (s.step e).phase? l = some q ∧ q.inProgress = false
      rcases hcases with hsame | ⟨how, hleases⟩
      · exact ⟨lease.phase, by rw [hsame, hp], hdone⟩
      · exact ⟨.ended how, by rw [phase?, hleases, getElem?_setPhase hl]; rfl, rfl⟩
    · obtain ⟨next, hnext, honward⟩ := step_onward hl hyields
      exact ⟨next, phase?_of_lease hnext, honward.done hdone⟩

/-- The counts of the pool and of its connections are counts of the answers so far. -/
structure Counted (s : System) (log : List Answer) : Prop where
  created : s.books.created = log.countP fun x => !x.reused
  opened : s.books.created = s.connections.length
  reused : s.books.reused = log.countP Answer.reused
  known : ∀ x ∈ log, x.conn < s.connections.length
  done : ∀ x ∈ log, ∃ p, s.phase? x.lease = some p ∧ p.inProgress = false
  once : (log.map Answer.lease).Nodup
  useCount : ∀ c n, s.Tallied c n → n = log.countP fun x => x.conn == c

/-- In a new pool, nothing has been answered or counted. -/
theorem counted_init (settings : PoolSettings) : (init settings).Counted [] := by
  refine ⟨rfl, rfl, rfl, nofun, nofun, List.nodup_nil, ?_⟩
  intro c n h
  rcases h with ⟨l, hl⟩ | ⟨r, i, hi, -⟩
  · cases hl
  · cases hi

variable {log : List Answer} {i : IdleConnection}

/-- Where nothing is counted, nothing need be. -/
theorem Counted.of_unanswered (h : s.Counted log) (hconns : s.SameConnections t.connections)
    (hcreated : t.books.created = s.books.created) (hreused : t.books.reused = s.books.reused)
    (hdone : ∀ x ∈ log, ∃ p, t.phase? x.lease = some p ∧ p.inProgress = false)
    (htallied : ∀ c n, t.Tallied c n → s.Tallied c n) : t.Counted log := by
  have hlength : t.connections.length = s.connections.length := by
    simpa using congrArg List.length hconns
  refine ⟨hcreated.trans h.created, ?_, hreused.trans h.reused, ?_, hdone, h.once, ?_⟩
  · rw [hcreated, h.opened, hlength]
  · rw [hlength]
    exact h.known
  · intro c n hn
    exact h.useCount c n (htallied c n hn)

/-- A lease in progress has not been answered. -/
theorem Counted.nodup_concat (h : s.Counted log) (hl : s.leases[l]? = some lease)
    (hprogress : lease.phase.inProgress = true) (x : Answer) (hx : x.lease = l) :
    ((log ++ [x]).map Answer.lease).Nodup := by
  rw [List.map_append, List.map_singleton, List.nodup_append]
  refine ⟨h.once, List.nodup_singleton _, ?_⟩
  rintro _ hmem _ hlast rfl
  obtain ⟨y, hy, hlease⟩ := List.mem_map.1 hmem
  obtain ⟨p, hp, hdone⟩ := h.done y hy
  rw [hlease, List.mem_singleton.1 hlast, hx, phase?_of_lease hl, Option.some.injEq] at hp
  rw [hp, hdone] at hprogress
  cases hprogress

/-- A lease in progress that is answered adds its answer, if the counts of the pool and the number of its
connections go up with it, and if the connection comes to have one tally more than it has answers. -/
theorem Counted.answered (h : s.Counted log) (hafter : t.Owning) (hl : s.leases[l]? = some lease)
    (hprogress : lease.phase.inProgress = true) {k : Held} {reused : Bool}
    (hleases : t.leases = (s.setPhase l (.held k)).leases)
    (haccount : ∀ r, t.books.account r = s.books.account r)
    (hdone : ∀ x ∈ log, ∃ p, t.phase? x.lease = some p ∧ p.inProgress = false)
    (hcreated : t.books.created = s.books.created + [reused].countP fun old => !old)
    (hreused : t.books.reused = s.books.reused + [reused].countP fun old => old)
    (hopened : t.connections.length = s.connections.length + [reused].countP fun old => !old)
    (hknown : k.conn < t.connections.length)
    (huse : k.useCount = (log.countP fun x => x.conn == k.conn) + 1) :
    t.Counted (log ++ [⟨l, lease.route, k.conn, reused⟩]) := by
  have hheld : t.leases[l]? = some { lease with phase := .held k } := by
    rw [hleases]
    exact getElem?_setPhase hl _
  refine ⟨?_, ?_, ?_, ?_, ?_, ?_, ?_⟩
  · rw [hcreated, h.created, List.countP_append]
    rfl
  · rw [hcreated, h.opened, hopened]
  · rw [hreused, h.reused, List.countP_append]
    rfl
  · intro x hx
    rcases List.mem_append.1 hx with hold | hnew
    · exact (h.known x hold).trans_le (hopened ▸ Nat.le_add_right _ _)
    · rw [List.mem_singleton.1 hnew]
      exact hknown
  · intro x hx
    rcases List.mem_append.1 hx with hold | hnew
    · exact hdone x hold
    · rw [List.mem_singleton.1 hnew]
      exact ⟨_, phase?_of_lease hheld, rfl⟩
  · exact h.nodup_concat hl hprogress _ rfl
  · intro c n hn
    rw [List.countP_append]
    by_cases hc : c = k.conn
    · subst hc
      rw [hafter.tallied_unique hn (tallied_of_lease hheld rfl), huse]
      simp
    · -- the tallies of the other connections are what they were
      have hsame : s.Tallied c n := by
        refine tallied_of_setPhase hleases ?_ ?_ hn
        · intro htally
          exact absurd (Prod.mk.inj (Option.some.inj htally)).1.symm hc
        · intro r i hi hconn hcount
          exact .inr ⟨r, i, haccount r ▸ hi, hconn, hcount⟩
      have hne : (k.conn == c) = false := by simpa using Ne.symm hc
      simp only [List.countP_singleton, hne]
      exact h.useCount c n hsame

/-- Taking an idle connection into use counts as one answer of a reused connection. -/
theorem Counted.ready (h : s.Counted log) (hown : s.Owning) (hafter : (s.ready l lease i).Owning)
    (hl : s.leases[l]? = some lease) (hphase : lease.phase = .readying i)
    (hdone : ∀ x ∈ log, ∃ p, (s.ready l lease i).phase? x.lease = some p ∧ p.inProgress = false) :
    (s.ready l lease i).Counted (log ++ [⟨l, lease.route, i.conn, true⟩]) := by
  have hopened : i.conn < s.connections.length := hown.lt_length_of_held hl (by rw [hphase]; rfl)
  have hbefore := h.useCount i.conn i.useCount (tallied_of_lease hl (by rw [hphase]; rfl))
  have hbooks (r : Route) : (s.ready l lease i).books.account r = s.books.account r :=
    State.account_countReused _ r
  have hcreated : (s.ready l lease i).books.created = s.books.created := by
    simp [books_ready, State.countReused]
  have hreused : (s.ready l lease i).books.reused = s.books.reused + 1 := by
    simp [books_ready, State.countReused]
  exact h.answered (k := ⟨i.conn, i.createdAt, i.useCount + 1, true⟩) hafter hl
    (by rw [hphase]; rfl) rfl hbooks hdone hcreated hreused rfl hopened (congrArg (· + 1) hbefore)

/-- Opening a connection counts as one answer of a new connection. -/
theorem Counted.connected (h : s.Counted log) (hafter : (s.connected l lease).Owning)
    (hl : s.leases[l]? = some lease) (hphase : lease.phase = .connecting)
    (hdone : ∀ x ∈ log, ∃ p, (s.connected l lease).phase? x.lease = some p ∧ p.inProgress = false) :
    (s.connected l lease).Counted (log ++ [⟨l, lease.route, s.connections.length, false⟩]) := by
  have hlength : (s.connected l lease).connections.length = s.connections.length + 1 := by
    simp [System.connected]
  have hbooks (r : Route) : (s.connected l lease).books.account r = s.books.account r :=
    State.account_countCreated _ r
  have hcreated : (s.connected l lease).books.created = s.books.created + 1 := by
    simp [books_connected, State.countCreated]
  have hreused : (s.connected l lease).books.reused = s.books.reused := by
    simp [books_connected, State.countCreated]
  -- nobody has been given the connection before it was opened
  have hnone : log.countP (fun x => x.conn == s.connections.length) = 0 := by
    rw [List.countP_eq_zero]
    intro x hx
    simpa using (h.known x hx).ne
  exact h.answered (k := ⟨s.connections.length, s.now, 1, false⟩) hafter hl (by rw [hphase]; rfl)
    rfl hbooks hdone hcreated hreused hlength (hlength ▸ Nat.lt_succ_self _) (by rw [hnone])

/-- Every act adds its answer to those that are counted. -/
theorem Counted.act (h : s.Counted log) (hown : s.Owning) (a : Act) :
    (s.act a).Counted (log ++ (s.answer? a).toList) := by
  have hafter : (s.act a).Owning := (hown.continues (reaches_act s a)).owning
  have hdone : ∀ x ∈ log, ∃ p, (s.act a).phase? x.lease = some p ∧ p.inProgress = false := by
    intro x hx
    obtain ⟨p, hp, hover⟩ := h.done x hx
    exact act_done hp hover a
  have hunanswered (hheld : ∀ l k, (s.act a).held? l = some k → s.held? l = some k)
      (hafter : (s.act a).Counted log) : (s.act a).Counted (log ++ (s.answer? a).toList) := by
    rwa [answer?_eq_none hheld, Option.toList_none, List.append_nil]
  have hprogress := progress hown.accounted a
  have hbooks := hown.accounted.balanced
  generalize s.act a = t at *
  cases hprogress with
  | ready hl hphase =>
    rw [answer?_ready hown hl hphase]
    exact h.ready hown hafter hl hphase hdone
  | connected hl hphase =>
    rw [answer?_connected hl hphase]
    exact h.connected hafter hl hphase hdone
  | @release l lease k hl hphase keepAlive =>
    have hretains := retains_release hown.accounted hl hphase keepAlive
    have hleases : (s.release l lease k keepAlive).leases =
        (s.setPhase l (.ended .released)).leases := rfl
    refine hunanswered (fun m j hj => held?_of_setPhase hleases nofun hj) ?_
    exact h.of_unanswered rfl hretains.created hretains.reused hdone
      fun c n hn => tallied_release hbooks hl hphase hn
  | @claim l lease hl hphase hopen failing connections hconns outcome books hclaim =>
    obtain ⟨hcreated, hreused⟩ := State.counts_claim hbooks hclaim
    have hphase (k : Held) : outcome.phase ≠ .held k := by cases outcome <;> nofun
    refine hunanswered (fun m j hj => held?_of_setPhase (s := s) rfl hphase hj) ?_
    refine h.of_unanswered hconns ?_ ?_ hdone fun c n hn => tallied_claim hbooks hclaim hn
    · rw [books_setPhase, ← hcreated]
      cases outcome <;> simp [Claim.record, State.addPending]
    · rw [books_setPhase, ← hreused]
      cases outcome <;> simp [Claim.record, State.addPending]
  | quiet hquiet hstages =>
    refine hunanswered (fun m j hj => hquiet.held? hj) ?_
    exact h.of_unanswered hquiet.connections hquiet.retains.created hquiet.retains.reused hdone
      fun c n hn => hquiet.tallied hn

/-! ## The counts of a route -/

/-- Entering a lease, or its wait, changes no counts of an entry, and gives a new entry zero counts. -/
theorem find?_record {last books : State} {outcome : Claim} {route : Route}
    (h : outcome = .wait ∧ books = last ∨ outcome ≠ .wait ∧ books = last.addLease route) (r : Route)
    {p : RoutePool} (hp : (outcome.record route books).find? r = some p) :
    (∃ q, last.find? r = some q ∧ q.created = p.created ∧ q.reused = p.reused) ∨
      r = route ∧ last.find? route = none ∧ p.created = 0 ∧ p.reused = 0 := by
  have hentered : ∃ f : RoutePool → RoutePool,
      (∀ p, (f p).created = p.created ∧ (f p).reused = p.reused) ∧
      (outcome.record route books).find? r =
        if r = route then some (f (last.get route)) else last.find? r := by
    rcases h with ⟨rfl, rfl⟩ | ⟨hplace, rfl⟩
    · exact ⟨fun p => { p with pending := p.pending + 1 }, fun _ => ⟨rfl, rfl⟩,
        State.find?_modify _ _ _ _⟩
    · refine ⟨fun p => { p with leased := p.leased + 1 }, fun _ => ⟨rfl, rfl⟩, ?_⟩
      cases outcome with
      | wait => exact absurd rfl hplace
      | reuse | connect => exact State.find?_addLease last route r
  obtain ⟨f, hf, hfind⟩ := hentered
  rw [hfind] at hp
  split at hp
  case isFalse => exact .inl ⟨p, hp, rfl, rfl⟩
  case isTrue hr =>
    subst hr
    obtain rfl := Option.some.inj hp
    rw [(hf _).1, (hf _).2]
    cases hlast : last.find? r with
    | none => exact .inr ⟨rfl, rfl, by simp [State.get, hlast, RoutePool.fresh]⟩
    | some q => exact .inl ⟨q, rfl, by simp [State.get, hlast]⟩

/-- An act that goes through no stages does not forget a route that has an entry afterwards. -/
theorem not_forgets {a : Act} {r : Route} {p : RoutePool} (hstages : s.stages a = [])
    (hp : (s.act a).books.find? r = some p) : ¬ s.Forgets a r := by
  rintro ⟨books, hbooks, hnone⟩
  rw [hstages, List.nil_append, List.mem_singleton] at hbooks
  rw [hbooks, hp] at hnone
  cases hnone

/-- An entry counts an answer to a lease of its route; if it has just been made, it counts none. -/
theorem entry_act (hown : s.Owning) (a : Act) {r : Route} {p : RoutePool}
    (hp : (s.act a).books.find? r = some p) :
    s.Forgets a r ∧ p.created = 0 ∧ p.reused = 0 ∨
      ¬ s.Forgets a r ∧ ∃ q, s.books.find? r = some q ∧
        p.created = q.created + (s.answer? a).toList.countP (fun x => x.route == r && !x.reused) ∧
        p.reused = q.reused + (s.answer? a).toList.countP (fun x => x.route == r && x.reused) := by
  have hunanswered (hheld : ∀ l k, (s.act a).held? l = some k → s.held? l = some k)
      (hretains : ∃ q, s.books.find? r = some q ∧ q.created = p.created ∧ q.reused = p.reused) :
      ∃ q, s.books.find? r = some q ∧
        p.created = q.created + (s.answer? a).toList.countP (fun x => x.route == r && !x.reused) ∧
        p.reused = q.reused + (s.answer? a).toList.countP (fun x => x.route == r && x.reused) := by
    obtain ⟨q, hq, hcreated, hreused⟩ := hretains
    rw [answer?_eq_none hheld]
    exact ⟨q, hq, hcreated.symm, hreused.symm⟩
  have hkept (hstages : s.stages a = []) : ¬ s.Forgets a r := not_forgets hstages hp
  have hforgets : s.Forgets a r ↔ ∃ books ∈ s.stages a, books.find? r = none := by
    simp [Forgets, or_and_right, exists_or, hp]
  have hprogress := progress hown.accounted a
  have hbooks := hown.accounted.balanced
  generalize s.act a = t at *
  cases hprogress with
  | @ready l lease i hl hphase =>
    refine .inr ⟨hkept rfl, ?_⟩
    rw [answer?_ready hown hl hphase]
    have hknown := State.find?_isSome_of_leased (hown.accounted.leased_pos hl (by rw [hphase]; rfl))
    obtain ⟨q, hq, rfl⟩ := State.find?_modify_of_known hknown hp
    refine ⟨q, hq, ?_⟩
    by_cases hr : r = lease.route
    · simp [hr]
    · simp [hr, Ne.symm hr]
  | @connected l lease hl hphase =>
    refine .inr ⟨hkept rfl, ?_⟩
    rw [answer?_connected hl hphase]
    have hknown := State.find?_isSome_of_leased (hown.accounted.leased_pos hl (by rw [hphase]; rfl))
    obtain ⟨q, hq, rfl⟩ := State.find?_modify_of_known hknown hp
    refine ⟨q, hq, ?_⟩
    by_cases hr : r = lease.route
    · simp [hr]
    · simp [hr, Ne.symm hr]
  | @release l lease k hl hphase keepAlive =>
    have hretains := retains_release hown.accounted hl hphase keepAlive
    have hleases : (s.release l lease k keepAlive).leases =
        (s.setPhase l (.ended .released)).leases := rfl
    exact .inr ⟨hkept rfl, hunanswered (fun m j hj => held?_of_setPhase hleases nofun hj)
      (hretains.entry r p hp)⟩
  | @claim l lease hl hphase hopen failing connections hconns outcome books hclaim =>
    -- the entry may be made anew in the middle of a claim, after it has been removed as unused
    obtain ⟨last, hlast, -, hstages, hmade, hentered⟩ := State.claim_traced hbooks hclaim
    have hphase' (k : Held) : outcome.phase ≠ .held k := by cases outcome <;> nofun
    have hact : s.stages (.event (.claim l failing)) = s.books.claimStages s.settings s.live
        (failing.foldl closeConnection s).live s.now lease.route := by
      simp [stages, hl, hphase, hopen]
    rw [hforgets, hact]
    rcases find?_record hentered r hp with ⟨q, hq, hcreated, hreused⟩ | ⟨rfl, hnone, hzero⟩
    · refine .inr ⟨?_, hunanswered (fun m j hj => held?_of_setPhase (s := s) rfl hphase' hj) ?_⟩
      · rintro ⟨b, hb, hnone⟩
        rw [(hstages b hb).find?_eq_none hnone] at hq
        cases hq
      · obtain ⟨q', hq', hcreated', hreused'⟩ := hlast.entry r q hq
        exact ⟨q', hq', hcreated'.trans hcreated, hreused'.trans hreused⟩
    · exact .inl ⟨hmade hnone, hzero⟩
  | quiet hquiet hstages =>
    exact .inr ⟨hkept hstages, hunanswered (fun m j hj => hquiet.held? hj)
      (hquiet.retains.entry r p hp)⟩

/-- The invariants along a run. -/
theorem counted_play (settings : PoolSettings) (acts : List Act) :
    ((init settings).play acts).Counted ((init settings).answers acts) := by
  induction acts using List.reverseRecOn with
  | nil => exact counted_init settings
  | append_singleton acts a ih =>
    have hreachable : Reachable settings ((init settings).play acts) := reaches_play _ acts
    rw [play_concat, answers_concat]
    exact ih.act hreachable.owning a

/-- An entry that is not forgotten during one more act has been there since the same act. -/
theorem EntrySince.concat {route : Route} {before later : List Act} {a b : Act}
    (h : s.EntrySince route before a later)
    (hb : ¬ (s.play (before ++ a :: later)).Forgets b route) :
    s.EntrySince route before a (later ++ [b]) := by
  refine ⟨h.made, ?_⟩
  intro us x vs hlater
  rcases List.eq_nil_or_concat vs with rfl | ⟨vs, y, rfl⟩
  · obtain ⟨rfl, hx⟩ := List.append_inj' hlater rfl
    obtain rfl : b = x := by simpa using hx
    exact hb
  · rw [List.concat_eq_append, ← List.cons_append, ← List.append_assoc] at hlater
    exact h.kept us x vs (List.append_inj' hlater rfl).1

/-- The counts of an entry are the answers since it was last made. -/
theorem entry_play (settings : PoolSettings) (acts : List Act) {route : Route} {p : RoutePool}
    (hp : ((init settings).play acts).books.find? route = some p) :
    (init settings).CountsSinceEntry acts route p.created p.reused := by
  induction acts using List.reverseRecOn generalizing p with
  | nil => cases hp
  | append_singleton acts b ih =>
    have hreachable : Reachable settings ((init settings).play acts) := reaches_play _ acts
    rw [play_concat] at hp
    rcases entry_act hreachable.owning b hp with ⟨hmade, hcreated, hreused⟩ | ⟨hkept, q, hq, hcounts⟩
    · refine ⟨acts, b, [], rfl, ⟨hmade, ?_⟩, hcreated, hreused⟩
      intro us x vs hlater
      simp at hlater
    · obtain ⟨before, a, later, rfl, hsince, hcreated, hreused⟩ := ih hq
      have hplay : ((init settings).play (before ++ [a])).play later =
          (init settings).play (before ++ a :: later) := by
        rw [← play_append, List.append_assoc, List.singleton_append]
      refine ⟨before, a, later ++ [b], by simp, hsince.concat hkept, ?_, ?_⟩
      · rw [hcounts.1, hcreated, answers_concat, List.countP_append, hplay]
      · rw [hcounts.2, hreused, answers_concat, List.countP_append, hplay]

/-- What an entry counts is part of what has happened. -/
theorem entry_le_answers (settings : PoolSettings) (acts : List Act) {route : Route} {p : RoutePool}
    (hp : ((init settings).play acts).books.find? route = some p) :
    p.created ≤ ((init settings).answers acts).countP (fun x => x.route == route && !x.reused) ∧
      p.reused ≤ ((init settings).answers acts).countP (fun x => x.route == route && x.reused) := by
  obtain ⟨before, a, later, rfl, -, hcreated, hreused⟩ := entry_play settings acts hp
  have happend : before ++ a :: later = before ++ [a] ++ later := by simp
  rw [hcreated, hreused, happend, answers_append, List.countP_append, List.countP_append]
  exact ⟨Nat.le_add_left _ _, Nat.le_add_left _ _⟩

/-- Where each entry counts at most what belongs to its route, all entries together count at most
everything. -/
theorem sumOver_le_countP {routes : List (Route × RoutePool)} (hn : (routes.map Prod.fst).Nodup)
    {figure : RoutePool → Nat} {q : Answer → Bool} {log : List Answer}
    (h : ∀ e ∈ routes, figure e.2 ≤ log.countP fun x => x.route == e.1 && q x) :
    State.sumOver routes figure ≤ log.countP q := by
  induction routes generalizing log with
  | nil => exact Nat.zero_le _
  | cons e rest ih =>
    rw [List.map_cons, List.nodup_cons] at hn
    have hfirst := h e List.mem_cons_self
    have hrest : State.sumOver rest figure ≤ (log.filter fun x => !(x.route == e.1)).countP q := by
      apply ih hn.2
      intro e' he'
      have hne : e'.1 ≠ e.1 := by
        intro heq
        exact hn.1 (heq ▸ List.mem_map_of_mem he')
      refine (h e' (List.mem_cons_of_mem _ he')).trans ?_
      rw [List.countP_filter]
      apply List.countP_mono_left
      intro x _ hx
      simp only [Bool.and_eq_true, beq_iff_eq] at hx
      simp [hx.1, hx.2, hne]
    have hsplit := List.countP_eq_countP_filter_add log q fun x => x.route == e.1
    have hown : (log.filter fun x => x.route == e.1).countP q =
        log.countP fun x => x.route == e.1 && q x := by
      rw [List.countP_filter]
      simp only [Bool.and_comm]
    show figure e.2 + State.sumOver rest figure ≤ log.countP q
    omega

/-! ## Places -/

/-- Every place is taken up by a connection that has been opened, or by a lease that is opening
one. -/
def Backed (s : System) : Prop :=
  s.books.leasedTotal + s.books.idleTotal ≤ s.connections.length + s.connecting

/-- A lease that changes its phase changes the number of those that are connecting by itself. -/
theorem connecting_setPhase (hl : s.leases[l]? = some lease) {next : Phase}
    (hleases : t.leases = (s.setPhase l next).leases) :
    t.connecting + (if lease.phase.isConnecting then 1 else 0) =
      s.connecting + if next.isConnecting then 1 else 0 := by
  have h := countP_modify hl (fun lease => { lease with phase := next })
    fun lease => lease.phase.isConnecting
  simpa [connecting, setPhase, hleases] using h

/-- Waking a lease does not change whether it is opening a connection. -/
theorem isConnecting_wake (lease : Lease) :
    (wake lease).phase.isConnecting = lease.phase.isConnecting := by
  unfold wake
  split
  case h_1 h => rw [h]; rfl
  case h_2 => rfl

/-- The same connections, closed or not, are equally many. -/
theorem SameConnections.length_eq {connections : List Connection}
    (h : s.SameConnections connections) : connections.length = s.connections.length := by
  simpa using congrArg List.length h

/-- What has to be shown of the totals when a lease changes its phase. -/
theorem Backed.setPhase (h : s.Backed) (hl : s.leases[l]? = some lease) {next : Phase}
    (hleases : t.leases = (s.setPhase l next).leases)
    (hconns : t.connections.length = s.connections.length)
    (htotals : t.books.leasedTotal + t.books.idleTotal +
        (if lease.phase.isConnecting then 1 else 0) ≤
      s.books.leasedTotal + s.books.idleTotal + if next.isConnecting then 1 else 0) : t.Backed := by
  have hconnecting := connecting_setPhase hl hleases
  unfold Backed at h ⊢
  omega

/-- Every effect keeps the invariant. -/
theorem Backed.effect (h : s.Backed) (hacc : s.Accounted) (he : Effect s t) : t.Backed := by
  have hbooks := hacc.balanced
  cases he with
  | none | clock | reorder => exact h
  | start route deadline => simpa [Backed, connecting, Phase.isConnecting] using h
  | quit hl hphase how => exact h.setPhase hl rfl rfl (by simp [hphase, Phase.isConnecting])
  | @take l lease hl hphase live still i books hclaim connections hconns =>
    obtain ⟨mid, hmid, rfl, -, -, hcount⟩ := State.claim_reuse hbooks hclaim
    have hone := hcount fun _ => true
    simp only [State.idleCount, List.countP_true, if_true, ← hmid.balanced.idle, ← hbooks.idle]
      at hone
    have hleasedTotal := hmid.leasedTotal
    refine h.setPhase hl rfl hconns.length_eq ?_
    simp only [hphase, Phase.isConnecting, books_setPhase, State.addLease, State.idleTotal_modify,
      Bool.false_eq_true, if_false]
    omega
  | @connect l lease hl hphase live still books hclaim connections hconns =>
    obtain ⟨mid, hmid, rfl, -⟩ := State.claim_connect hbooks hclaim
    have hfewer := hmid.idleTotal_le hbooks
    have hleasedTotal := hmid.leasedTotal
    refine h.setPhase hl rfl hconns.length_eq ?_
    simp only [hphase, Phase.isConnecting, books_setPhase, State.addLease, State.idleTotal_modify,
      Bool.false_eq_true, if_false, if_true]
    omega
  | @park l lease hl hphase hopen live still books hclaim connections hconns =>
    obtain ⟨hswept, -⟩ := State.claim_wait hbooks hclaim
    have hfewer := hswept.idleTotal_le hbooks
    have hleasedTotal := hswept.leasedTotal
    refine h.setPhase hl rfl hconns.length_eq ?_
    simp only [hphase, Phase.isConnecting, books_setPhase, State.addPending,
      State.leasedTotal_modify, State.idleTotal_modify, Bool.false_eq_true, if_false]
    omega
  | ready hl hphase =>
    refine h.setPhase hl rfl rfl ?_
    simp [hphase, Phase.isConnecting, State.countReused]
  | @connected l lease hl hphase =>
    -- the connection that has been opened takes the place of the lease that was opening it
    have hconnecting := connecting_setPhase (t := s.connected l lease) hl rfl
    have hlength : (s.connected l lease).connections.length = s.connections.length + 1 := by
      simp [System.connected]
    simp only [hphase, Phase.isConnecting, Bool.false_eq_true, if_false, if_true] at hconnecting
    unfold Backed at h ⊢
    simp only [books_connected, State.countCreated, State.leasedTotal_modify,
      State.idleTotal_modify]
    omega
  | @vacate l lease hl hplace back hback next hnext =>
    have hpos := (hacc.leased_pos hl hplace).trans_le (State.leased_le hbooks lease.route)
    refine h.setPhase hl rfl rfl ?_
    rw [books_setPhase, books_finish, State.leasedTotal_finishLease, State.idleTotal_finishLease]
    cases hkept : s.books.kept s.live back with
    | none =>
      simp only [Option.toList_none, List.length_nil]
      split <;> omega
    | some i =>
      -- a lease that has a connection to park is not opening one
      have hconn := hback i (Option.filter_eq_some_iff.1 hkept).1
      have hnot := Phase.isConnecting_of_conn hconn
      simp only [hnot, Option.toList_some, List.length_singleton, Bool.false_eq_true, if_false]
      omega
  | @leave l lease hl hparked next hnext =>
    refine h.setPhase hl rfl rfl ?_
    simp only [Phase.isConnecting_of_isParked hparked, Bool.false_eq_true, if_false]
    exact Nat.le_add_right _ _
  | wakeAll =>
    simpa [Backed, connecting, List.countP_map, Function.comp_def, isConnecting_wake] using h
  | wakeOne hl hparked =>
    refine h.setPhase hl rfl rfl ?_
    simp only [Phase.isConnecting_of_isParked hparked, Bool.false_eq_true, if_false]
    exact Nat.le_add_right _ _
  | close hconns =>
    unfold Backed at h ⊢
    simp only [hconns.length_eq]
    exact h
  | evict live keep =>
    have hswept := State.Swept.evict hbooks live keep
    have hfewer := hswept.idleTotal_le hbooks
    have hleasedTotal := hswept.leasedTotal
    unfold Backed connecting at h ⊢
    simp only
    omega
  | shutdown =>
    exact (Nat.add_le_add_left (Nat.zero_le _) _).trans h

/-- In every state of a run, each place is taken up by a connection or by a lease opening one. -/
theorem Reachable.backed {settings : PoolSettings} (h : Reachable settings s) : s.Backed :=
  h.induction_accounted (P := Backed) (Nat.le_refl 0) fun _ _ hacc he hs => hs.effect hacc he

/-- In every state of every run, the pool has created as many connections as have been opened and
answered to leases, and reused as many as leases were answered with idle ones; these counts never
fall, whatever routes are forgotten. A route with an entry counts in the same way what it has created
and reused since the entry was last made, so all entries together count no more than the pool. There
are no more places taken than connections created and leases connecting. The connection of a lease
counts all leases that it has been the answer to. -/
theorem counters_tell_history (settings : PoolSettings) :
    (∀ s, Reachable settings s ↔ ∃ acts, s = (init settings).play acts) ∧
      ∀ acts, (init settings).Counters acts := by
  refine ⟨fun s => reachable_iff_play, ?_⟩
  intro acts
  have hreachable : Reachable settings ((init settings).play acts) := reaches_play _ acts
  have hcounted := counted_play settings acts
  have hkeyed := hreachable.accounted.balanced.keyed
  have hentry (e : Route × RoutePool) (he : e ∈ ((init settings).play acts).books.routes) :=
    entry_le_answers settings acts ((lookup_eq_some_iff_mem hkeyed).2 he)
  refine
    { created := hcounted.created
      opened := hcounted.opened
      reused := hcounted.reused
      answered := ?_
      once := hcounted.once
      grow := ?_
      entry := fun route p hp => entry_play settings acts hp
      known := fun route => Option.map_eq_none_iff
      figures := ?_
      sumCreated := ?_
      sumReused := ?_
      places := ?_
      useCount := ?_ }
  · show ((init settings).play acts).books.created + ((init settings).play acts).books.reused = _
    have hsplit := List.length_eq_countP_add_countP Answer.reused
      (l := (init settings).answers acts)
    simp only [Bool.not_eq_true, Bool.decide_eq_false] at hsplit
    rw [hcounted.created, hcounted.reused, hsplit, Nat.add_comm]
  · intro more
    have hlater := counted_play settings (acts ++ more)
    show ((init settings).play acts).books.created ≤
        ((init settings).play (acts ++ more)).books.created ∧
      ((init settings).play acts).books.reused ≤
        ((init settings).play (acts ++ more)).books.reused
    rw [hcounted.created, hcounted.reused, hlater.created, hlater.reused, answers_append,
      List.countP_append, List.countP_append]
    exact ⟨Nat.le_add_right _ _, Nat.le_add_right _ _⟩
  · intro route figures hfigures
    obtain ⟨p, hp, rfl⟩ := Option.map_eq_some_iff.1 hfigures
    exact entry_play settings acts hp
  · exact (sumOver_le_countP hkeyed fun e he => (hentry e he).1).trans hcounted.created.ge
  · exact (sumOver_le_countP hkeyed fun e he => (hentry e he).2).trans hcounted.reused.ge
  · have hbacked := hreachable.backed
    unfold Backed at hbacked
    rw [← hcounted.opened] at hbacked
    exact hbacked
  · intro l h hheld
    obtain ⟨lease, hl, hphase⟩ := held?_eq_some.1 hheld
    exact hcounted.useCount h.conn h.useCount (tallied_of_lease hl (by rw [hphase]; rfl))

/-- A connection is created, handed back and reused, and then dropped, so that its route is forgotten.
The next lease makes the entry again and is answered with a new connection: of the three answers, the
entry counts the last one only. -/
theorem counters_tell_history_made_again :
    let settings : PoolSettings := ⟨1, 1, .standard⟩
    let route : Route := ⟨.http, ['h'], 80⟩
    let acts : List Act := [Event.start route none, .claim 0 [], .connected 0, .release 0 0,
      .start route none, .claim 1 [], .ready 1, .drop 1, .start route none, .claim 2 [],
      .connected 2].map .event
    let s := (init settings).play acts
    s.stats.created = 2 ∧ s.stats.reused = 1 ∧ ((init settings).answers acts).length = 3 ∧
      (s.routeStats? route).map (fun figures => (figures.created, figures.reused)) = some (1, 0) ∧
      (init settings).CountsSinceEntry acts route 1 0 ∧
      ((init settings).answers (acts.take 7)).countP (fun x => x.conn == 0) = 2 := by
  intro settings route acts s
  obtain ⟨-, hcounters⟩ := counters_tell_history settings
  have hentry : s.books.find? route = some ⟨1, [], 0, 1, 0⟩ := by decide
  have hsum : s.stats.created + s.stats.reused = 3 := by decide
  -- after seven acts the second lease holds the connection that the first one has handed back
  have hheld : ((init settings).play (acts.take 7)).held? 1 = some ⟨0, 0, 2, true⟩ := by decide
  exact ⟨by decide, by decide, (hcounters acts).answered.symm.trans hsum, by decide,
    (hcounters acts).entry route _ hentry, ((hcounters (acts.take 7)).useCount 1 _ hheld).symm⟩

end System
end PooledHttp.Pool
