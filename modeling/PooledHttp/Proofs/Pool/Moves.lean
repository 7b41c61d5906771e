import Mathlib.Logic.Relation
import PooledHttp.Pool.System

/-!
# All runs of a pool

An event is one critical section of one party, and `System.step` says what it does. A run leaves more
open than the events do: the time that an operation has read before it came to the books, the order
in which the entries of the books are visited, what happens to connections during a removal, and
broadcasts that reach a lease just before it is parked or just after it has given up. `System.Move` is
one step of a run with all of this left open, and `System.Reachable` is what any number of moves make
of a new pool.

Invariants are proved once per kind of change, not once per event. `System.Effect` lists the kinds
with what each presupposes, and `System.Move.effect` says that there are no others.
-/

set_option autoImplicit false

namespace PooledHttp.Pool

/-- Whether the lease waits for a place. -/
def Phase.isParked : Phase → Bool
  | .parked _ => true
  | .claiming | .readying _ | .connecting | .held _ | .ended _ => false

/-- Whether the lease neither occupies a place nor waits for one. -/
def Phase.isOutside : Phase → Bool
  | .claiming | .ended _ => true
  | .readying _ | .connecting | .parked _ | .held _ => false

/-- No lease occupies a place and waits for one. -/
theorem Phase.isParked_of_hasPlace {p : Phase} (h : p.hasPlace = true) : p.isParked = false := by
  cases p <;> first | rfl | cases h

/-- A parked lease occupies no place. -/
theorem Phase.hasPlace_of_isParked {p : Phase} (h : p.isParked = true) : p.hasPlace = false := by
  cases p <;> first | rfl | cases h

/-- A lease outside occupies no place. -/
theorem Phase.hasPlace_of_isOutside {p : Phase} (h : p.isOutside = true) : p.hasPlace = false := by
  cases p <;> first | rfl | cases h

/-- A lease outside is not parked. -/
theorem Phase.isParked_of_isOutside {p : Phase} (h : p.isOutside = true) : p.isParked = false := by
  cases p <;> first | rfl | cases h

/-- A lease outside has no connection. -/
theorem Phase.conn?_of_isOutside {p : Phase} (h : p.isOutside = true) : p.conn? = none := by
  cases p <;> first | rfl | cases h

namespace System

/-! ## A change of phase -/

section Books

variable (s : System) (l : LeaseId) (lease : Lease)

/-- Changing the phase of a lease does not touch the books. -/
@[simp]
theorem books_setPhase (phase : Phase) : (s.setPhase l phase).books = s.books := rfl

/-- Changing the phase of a lease does not touch the connections. -/
@[simp]
theorem connections_setPhase (phase : Phase) :
    (s.setPhase l phase).connections = s.connections := rfl

/-- A lease that ends is taken off the books. -/
@[simp]
theorem books_finish (route : Route) (parked : Option IdleConnection) :
    (s.finish route parked).books = s.books.finishLease s.live route parked := rfl

/-- A parked lease that leaves is taken off the waits of its route. -/
@[simp]
theorem books_leave (phase : Phase) :
    (s.leave l lease phase).books = s.books.removePending lease.route := rfl

/-- Taking an idle connection into use is counted as a reuse. -/
@[simp]
theorem books_ready (c : IdleConnection) :
    (s.ready l lease c).books = s.books.countReused lease.route := rfl

/-- A connection that is opened is counted as created. -/
@[simp]
theorem books_connected : (s.connected l lease).books = s.books.countCreated lease.route := rfl

end Books

/-- The leases after a change of phase are the former ones and the one that has changed. -/
theorem mem_setPhase {s : System} {l : LeaseId} {lease : Lease} (hl : s.leases[l]? = some lease)
    {next : Phase} {other : Lease}
    (hother : other ∈ (s.setPhase l next).leases) :
    other ∈ s.leases ∨ other = { lease with phase := next } := by
  obtain ⟨i, hi⟩ := List.mem_iff_getElem?.1 hother
  rw [setPhase, List.getElem?_modify] at hi
  by_cases hil : l = i
  · subst hil
    rw [hl] at hi
    exact .inr (by simpa using hi.symm)
  · exact .inl (List.mem_of_getElem? (by simpa [hil] using hi))

/-! ## Moves -/

/-- One step of a run. -/
inductive Move : System → System → Prop where
  /-- An event. -/
  | event (s : System) (e : Event) : Move s (s.step e)
  /-- The clock shows any time: the next operation may have read it long ago, and a lease may notice
  late that its deadline has passed. -/
  | clock (s : System) (time : Millis) : Move s { s with now := time }
  /-- The entries of the books are visited in any order. -/
  | reorder (s : System) (routes : List (Route × RoutePool)) (h : s.books.routes.Perm routes) :
    Move s { s with books := { s.books with routes := routes } }
  /-- A removal looks at one idle connection after the other, while the clock runs and connections are
  closed: it keeps what was open and young enough at that moment. -/
  | evict (s : System) (live : ConnId → Bool) (keep : IdleConnection → Bool) :
    Move s { s with
      books := (s.books.evict live keep).2, owedByRemovals := s.owedByRemovals + 1 }
  /-- A parked lease is woken by a broadcast that was made while it was claiming. -/
  | wakeEarly (s : System) (l : LeaseId) (h : s.phase? l = some (.parked false)) :
    Move s (s.setPhase l (.parked true))
  /-- A lease with a deadline has stopped waiting when a broadcast reaches it, and leaves all the
  same. -/
  | expireWoken (s : System) (l : LeaseId) (lease : Lease) (hl : s.leases[l]? = some lease)
    (hphase : lease.phase = .parked true) (hdeadline : lease.deadline.isSome = true) :
    Move s (s.leave l lease (.ended .timedOut))

/-- `t` comes from `s` by any number of moves. -/
def Reaches : System → System → Prop := Relation.ReflTransGen Move

/-- `s` can come about in a pool with these settings. -/
def Reachable (settings : PoolSettings) (s : System) : Prop := Reaches (.init settings) s

/-- A series of events is a run. -/
theorem reaches_run (s : System) (events : List Event) : Reaches s (s.run events) := by
  induction events generalizing s with
  | nil => exact .refl
  | cons e events ih => exact .head (.event s e) (ih (s.step e))

/-- What holds of a new pool and is kept by every move holds of all that can come about. -/
theorem Reachable.induction {settings : PoolSettings} {P : System → Prop}
    (hinit : P (.init settings)) (hmove : ∀ s t, Move s t → P s → P t) {s : System}
    (h : Reachable settings s) : P s := by
  induction h with
  | refl => exact hinit
  | tail _ hlast ih => exact hmove _ _ hlast ih

/-! ## Effects -/

/-- The connections of `s`, some of them closed perhaps. -/
def SameConnections (s : System) (connections : List Connection) : Prop :=
  connections.map Connection.route = s.connections.map Connection.route

/-- The kinds of change that a move can make. -/
inductive Effect (s : System) : System → Prop where
  | none : Effect s s
  | start (route : Route) (deadline : Option Millis) :
    Effect s { s with leases := s.leases ++ [⟨route, deadline, .claiming⟩] }
  /-- A lease ends before it has claimed a place. -/
  | quit {l : LeaseId} {lease : Lease} (hl : s.leases[l]? = some lease)
    (hphase : lease.phase = .claiming) (how : LeaseEnd) : Effect s (s.setPhase l (.ended how))
  | take {l : LeaseId} {lease : Lease} (hl : s.leases[l]? = some lease)
    (hphase : lease.phase = .claiming) {live still : ConnId → Bool} {c : IdleConnection}
    {books : State}
    (hclaim : s.books.claim s.settings live still s.now lease.route = (.reuse c, books))
    {connections : List Connection} (hconns : s.SameConnections connections)
    (hopen : s.books.closed = false) :
    Effect s ({ s with books := books, connections := connections }.setPhase l (.readying c))
  | connect {l : LeaseId} {lease : Lease} (hl : s.leases[l]? = some lease)
    (hphase : lease.phase = .claiming) {live still : ConnId → Bool} {books : State}
    (hclaim : s.books.claim s.settings live still s.now lease.route = (.connect, books))
    {connections : List Connection} (hconns : s.SameConnections connections)
    (hopen : s.books.closed = false) :
    Effect s ({ s with books := books, connections := connections }.setPhase l .connecting)
  | park {l : LeaseId} {lease : Lease} (hl : s.leases[l]? = some lease)
    (hphase : lease.phase = .claiming) (hopen : s.books.closed = false)
    {live still : ConnId → Bool} {books : State}
    (hclaim : s.books.claim s.settings live still s.now lease.route = (.wait, books))
    {connections : List Connection} (hconns : s.SameConnections connections) :
    Effect s ({ s with books := books.addPending lease.route, connections := connections }.setPhase l
      (.parked false))
  | ready {l : LeaseId} {lease : Lease} (hl : s.leases[l]? = some lease) {c : IdleConnection}
    (hphase : lease.phase = .readying c) : Effect s (s.ready l lease c)
  | connected {l : LeaseId} {lease : Lease} (hl : s.leases[l]? = some lease)
    (hphase : lease.phase = .connecting) : Effect s (s.connected l lease)
  /-- A lease gives back its place, and perhaps the connection that it had. -/
  | vacate {l : LeaseId} {lease : Lease} (hl : s.leases[l]? = some lease)
    (hplace : lease.phase.hasPlace = true) (back : Option IdleConnection)
    (hback : ∀ c ∈ back, lease.phase.conn? = some c.conn) {next : Phase}
    (hnext : next.isOutside = true) : Effect s ((s.finish lease.route back).setPhase l next)
  /-- A lease no longer waits. -/
  | leave {l : LeaseId} {lease : Lease} (hl : s.leases[l]? = some lease)
    (hparked : lease.phase.isParked = true) {next : Phase} (hnext : next.isOutside = true) :
    Effect s (s.leave l lease next)
  | wakeAll (owed owedByRemovals : Nat) :
    Effect s { s with
      owed := owed, owedByRemovals := owedByRemovals, leases := s.leases.map wake }
  | wakeOne {l : LeaseId} {lease : Lease} (hl : s.leases[l]? = some lease)
    (hparked : lease.phase.isParked = true) : Effect s (s.setPhase l (.parked true))
  | close {connections : List Connection} (hconns : s.SameConnections connections) :
    Effect s { s with connections := connections }
  | clock (time : Millis) : Effect s { s with now := time }
  | evict (live : ConnId → Bool) (keep : IdleConnection → Bool) :
    Effect s { s with
      books := (s.books.evict live keep).2, owedByRemovals := s.owedByRemovals + 1 }
  | shutdown (hopen : s.books.closed = false) :
    Effect s { s with books := s.books.shutdown, owed := s.owed + 1 }
  | reorder {routes : List (Route × RoutePool)} (h : s.books.routes.Perm routes) :
    Effect s { s with books := { s.books with routes := routes } }

variable {s t : System}

/-- Closing a connection leaves the same connections. -/
theorem sameConnections_modify (c : ConnId) {connections : List Connection}
    (h : s.SameConnections connections) :
    s.SameConnections (connections.modify c fun k => { k with isOpen := false }) := by
  rw [SameConnections, ← h]
  apply List.ext_getElem?
  intro i
  simp only [List.getElem?_map, List.getElem?_modify]
  cases connections[i]? with
  | none => simp
  | some k => by_cases hi : c = i <;> simp [hi]

/-- Closing connections changes nothing but whether they are open. -/
theorem foldl_closeConnection (failing : List ConnId) : ∃ connections,
    s.SameConnections connections ∧
      failing.foldl closeConnection s = { s with connections := connections } := by
  induction failing generalizing s with
  | nil => exact ⟨s.connections, rfl, rfl⟩
  | cons c failing ih =>
    obtain ⟨connections, hconns, heq⟩ := ih (s := s.closeConnection c)
    refine ⟨connections, ?_, by rw [List.foldl_cons, heq]; rfl⟩
    exact hconns.trans (sameConnections_modify c (s := s) rfl)

/-- A claim ends the lease, takes an idle connection, lets the lease connect, or parks it. -/
theorem effect_claim {l : LeaseId} {lease : Lease} (hl : s.leases[l]? = some lease)
    (hphase : lease.phase = .claiming) (failing : List ConnId) :
    Effect s (s.claim l lease failing) := by
  obtain ⟨connections, hconns, hafter⟩ := foldl_closeConnection (s := s) failing
  unfold claim
  split
  case isTrue => exact .quit hl hphase .poolClosed
  case isFalse hclosed =>
    have hopen : s.books.closed = false := by simpa using hclosed
    simp only [hafter]
    split
    case h_1 c books hclaim => exact .take hl hphase hclaim hconns hopen
    case h_2 books hclaim => exact .connect hl hphase hclaim hconns hopen
    case h_3 books hclaim => exact .park hl hphase hopen hclaim hconns

/-- What an event of a lease does is one of the effects. -/
theorem effect_stepLease {l : LeaseId} {lease : Lease} (hl : s.leases[l]? = some lease) (e : Event) :
    Effect s (s.stepLease l lease e) := by
  cases e with
  | claim _ failing =>
    simp only [stepLease]
    split
    case isTrue h => exact effect_claim hl h failing
    case isFalse => exact .none
  | ready =>
    simp only [stepLease]
    split
    case h_1 c h => exact .ready hl h
    case h_2 => exact .none
  | unready =>
    simp only [stepLease]
    split
    case h_1 c h => exact .vacate hl (by rw [h]; rfl) none (by simp) rfl
    case h_2 => exact .none
  | connected =>
    simp only [stepLease]
    split
    case isTrue h => exact .connected hl h
    case isFalse => exact .none
  | refused _ error =>
    simp only [stepLease]
    split
    case isTrue h => exact .vacate hl (by rw [h]; rfl) none (by simp) rfl
    case isFalse => exact .none
  | resume =>
    simp only [stepLease]
    split
    case isTrue h => exact .leave hl (by rw [h]; rfl) rfl
    case isFalse => exact .none
  | expire =>
    simp only [stepLease]
    split
    case isTrue h =>
      have hphase : lease.phase = .parked false := by
        simp only [Bool.and_eq_true, decide_eq_true_eq] at h
        exact h.1
      exact .leave hl (by rw [hphase]; rfl) rfl
    case isFalse => exact .none
  | cancel =>
    show Effect s (s.cancel l lease)
    unfold System.cancel
    split
    case h_1 h => exact .quit hl h .cancelled
    case h_2 woken h => exact .leave hl (by rw [h]; rfl) rfl
    case h_3 c h => exact .vacate hl (by rw [h]; rfl) none (by simp) rfl
    case h_4 h => exact .vacate hl (by rw [h]; rfl) none (by simp) rfl
    case h_5 => exact .none
    case h_6 => exact .none
  | release _ keepAlive =>
    simp only [stepLease]
    split
    case h_1 h hheld =>
      refine .vacate hl (by rw [hheld]; rfl) (some _) (fun c hc => ?_) rfl
      obtain rfl := Option.some.inj hc
      rw [hheld]
      rfl
    case h_2 => exact .none
  | drop =>
    simp only [stepLease]
    split
    case h_1 h hheld => exact .vacate hl (by rw [hheld]; rfl) none (by simp) rfl
    case h_2 => exact .none
  | start | broadcast | broadcastRemoval | closed | tick | closeExpired | closeIdle | shutdown =>
    exact .none

/-- What an event of a lease does to the system. -/
theorem step_lease {e : Event} {l : LeaseId} (he : e.lease? = some l) :
    s.step e = (s.leases[l]?).elim s fun lease => s.stepLease l lease e := by
  cases e <;> cases he
  all_goals
    simp only [step, Event.lease?]
    cases s.leases[l]? <;> rfl

/-- What an event does is one of the effects. -/
theorem effect_step (e : Event) : Effect s (s.step e) := by
  cases he : e.lease? with
  | some l =>
    rw [step_lease he]
    cases hl : s.leases[l]? with
    | none => exact .none
    | some lease => exact effect_stepLease hl e
  | none =>
    cases e with
    | start route limit => exact .start route _
    | broadcast =>
      simp only [step]
      split
      · exact .none
      · exact .wakeAll _ s.owedByRemovals
    | broadcastRemoval =>
      simp only [step]
      split
      · exact .none
      · exact .wakeAll s.owed _
    | closed c => exact .close (sameConnections_modify c rfl)
    | tick time =>
      simp only [step]
      split
      · exact .clock _
      · exact .none
    | closeExpired => exact .evict _ _
    | closeIdle time => exact .evict _ _
    | shutdown =>
      simp only [step]
      split
      case isTrue => exact .none
      case isFalse hclosed => exact .shutdown (by simpa using hclosed)
    | claim | ready | unready | connected | refused | resume | expire | cancel | release | drop =>
      cases he

/-- What a move does is one of the effects. -/
theorem Move.effect (h : Move s t) : Effect s t := by
  cases h with
  | event e => exact effect_step e
  | clock time => exact .clock time
  | reorder routes h => exact .reorder h
  | evict live keep => exact .evict live keep
  | wakeEarly l h =>
    obtain ⟨lease, hl, hphase⟩ := Option.map_eq_some_iff.1 h
    exact .wakeOne hl (by rw [hphase]; rfl)
  | expireWoken l lease hl hphase hdeadline => exact .leave hl (by rw [hphase]; rfl) rfl

end System
end PooledHttp.Pool
