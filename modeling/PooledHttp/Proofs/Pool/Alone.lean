import PooledHttp.Proofs.Pool.Histories

/-!
# A lease that is alone with the pool

As long as no other party acts, nothing happens to the pool but what the lease does itself, beside the
passing of time, the closing of connections from the other side and the waking of leases. Each claim
of the lease is a pass over the idle connections (`System.passes`), and what it takes may turn out
closed (`System.discards`). `System.Lone` lists what one act can make of the lease and of the books,
and `System.goesOn_act` says that there is nothing else.
-/

set_option autoImplicit false

namespace PooledHttp.Pool

/-- What a claim knows of the idle connections: those in `live` are open when the dead ones are
removed, and those in `still` when one is taken. -/
structure Pass where
  live : ConnId → Bool
  still : ConnId → Bool
  now : Millis

/-- The acts of a lease that does not get a connection, and what may happen meanwhile without any
other party: time passes, connections are closed from the other side, and the parked leases are
woken. -/
def Act.isAlone (l : LeaseId) : Act → Bool
  | .event (.claim m _) | .event (.unready m) | .event (.refused m _) | .event (.resume m)
  | .event (.expire m) | .aside (.expireWoken m) => m = l
  | .event .broadcast | .event .broadcastRemoval | .event (.closed _) | .event (.tick _)
  | .aside (.clock _) | .aside (.reorder _) | .aside (.wakeEarly _) => true
  | _ => false

/-- All acts of a lease, with what may happen meanwhile without any other party. -/
def Act.isOwn (l : LeaseId) : Act → Bool
  | .event (.ready m) | .event (.connected m) | .event (.cancel m) | .event (.release m _)
  | .event (.drop m) => m = l
  | a => a.isAlone l

/-- The acts of a lease without a connection are acts of its own. -/
theorem Act.isOwn_of_isAlone {l : LeaseId} {a : Act} (h : a.isAlone l = true) :
    a.isOwn l = true := by
  unfold isOwn
  split
  case h_6 => exact h
  all_goals cases h

/-- Whether the lease is looking for a connection among the idle ones. -/
def Phase.isSearching : Phase → Bool
  | .claiming | .readying _ => true
  | .connecting | .parked _ | .held _ | .ended _ => false

/-- The idle connection that the lease has taken. -/
def Phase.taken? : Phase → Option IdleConnection
  | .readying c => some c
  | .claiming | .connecting | .parked _ | .held _ | .ended _ => none

namespace System

/-- The pass that a claim of the lease makes. -/
def pass? (s : System) (l : LeaseId) : Act → Option Pass
  | .event (.claim m failing) =>
    if m = l ∧ s.phase? l = some .claiming then
      some ⟨s.live, (failing.foldl closeConnection s).live, s.now⟩
    else none
  | _ => none

/-- The connection that the lease has taken and that turns out closed. -/
def discard? (s : System) (l : LeaseId) : Act → Option IdleConnection
  | .event (.unready m) => if m = l then (s.phase? l).bind Phase.taken? else none
  | _ => none

/-- The passes that the lease makes over the idle connections. -/
def passes (s : System) (l : LeaseId) : List Act → List Pass
  | [] => []
  | a :: acts => (s.pass? l a).toList ++ (s.act a).passes l acts

/-- The connections that the lease takes and that turn out closed. -/
def discards (s : System) (l : LeaseId) : List Act → List IdleConnection
  | [] => []
  | a :: acts => (s.discard? l a).toList ++ (s.act a).discards l acts

/-- The lease neither makes a pass nor discards a connection. -/
def Unseen (s : System) (l : LeaseId) (a : Act) : Prop := s.pass? l a = none ∧ s.discard? l a = none

/-- What one of its own acts makes of a lease and of the books. -/
inductive Lone (s : System) (l : LeaseId) (lease : Lease) (a : Act) : Phase → State → Prop where
  | still (hunseen : s.Unseen l a) : Lone s l lease a lease.phase s.books
  | wake {woken : Bool} (hparked : lease.phase = .parked woken) (hunseen : s.Unseen l a) :
    Lone s l lease a (.parked true) s.books
  | reorder {routes : List (Route × RoutePool)} (hperm : s.books.routes.Perm routes)
    (hunseen : s.Unseen l a) : Lone s l lease a lease.phase { s.books with routes := routes }
  | shut (hphase : lease.phase = .claiming) (hclosed : s.books.closed = true) :
    Lone s l lease a (.ended .poolClosed) s.books
  | claim (hphase : lease.phase = .claiming) {p : Pass} {outcome : Claim} {books : State}
    (hclaim : s.books.claim s.settings p.live p.still p.now lease.route = (outcome, books))
    (hpass : s.pass? l a = some p) (hdiscard : s.discard? l a = none) :
    Lone s l lease a outcome.phase (outcome.record lease.route books)
  | unready {c : IdleConnection} (hphase : lease.phase = .readying c) (hpass : s.pass? l a = none)
    (hdiscard : s.discard? l a = some c) :
    Lone s l lease a .claiming (s.books.finishLease s.live lease.route none)
  | refuse (hphase : lease.phase = .connecting) (e : TransportError) (hunseen : s.Unseen l a) :
    Lone s l lease a (.ended (.refused e)) (s.books.finishLease s.live lease.route none)
  | resume {woken : Bool} (hparked : lease.phase = .parked woken) (hunseen : s.Unseen l a)
    (hresume : a = .event (.resume l)) :
    Lone s l lease a .claiming (s.books.removePending lease.route)
  | expire {woken : Bool} (hparked : lease.phase = .parked woken) (hunseen : s.Unseen l a) :
    Lone s l lease a (.ended .timedOut) (s.books.removePending lease.route)
  /-- The lease gets its connection, hands it back, or is given up. -/
  | part (halone : a.isAlone l = false) (hunseen : s.Unseen l a) {next : Phase} {books : State}
    (hnext : next.isSearching = false) : Lone s l lease a next books

variable {s t : System} {l : LeaseId} {lease : Lease} {a : Act}

/-- Between `s` and `t` the lease has gone through one of its own acts. -/
def GoesOn (s : System) (l : LeaseId) (lease : Lease) (a : Act) (t : System) : Prop :=
  ∃ next, t.leases[l]? = some { lease with phase := next } ∧ s.Lone l lease a next t.books

/-- A lease to which nothing happens goes on. -/
theorem goesOn_still (hl : t.leases[l]? = some lease) (hbooks : t.books = s.books)
    (hunseen : s.Unseen l a) : s.GoesOn l lease a t :=
  ⟨lease.phase, hl, hbooks ▸ .still hunseen⟩

/-- An act that wakes the lease or leaves it alone. -/
theorem goesOn_wake (hl : t.leases[l]? = some lease ∨ t.leases[l]? = some (System.wake lease))
    (hbooks : t.books = s.books) (hunseen : s.Unseen l a) : s.GoesOn l lease a t := by
  rcases hl with hsame | hwoken
  · exact goesOn_still hsame hbooks hunseen
  · unfold System.wake at hwoken
    split at hwoken
    case h_1 woken hparked => exact ⟨_, hwoken, hbooks ▸ .wake hparked hunseen⟩
    case h_2 => exact goesOn_still hwoken hbooks hunseen

/-- A claim makes of a lease what it may make. -/
theorem goesOn_claim (hl : s.leases[l]? = some lease) (failing : List ConnId) :
    s.GoesOn l lease (.event (.claim l failing)) (s.step (.claim l failing)) := by
  have hphase? := phase?_of_lease hl
  rw [step_of_lease (e := .claim l failing) rfl hl, stepLease]
  split
  case isFalse hphase =>
    exact goesOn_still hl rfl ⟨by simp [pass?, hphase?, hphase], rfl⟩
  case isTrue hphase =>
    cases hclosed : s.books.closed with
    | true =>
      rw [System.claim, if_pos hclosed]
      exact ⟨_, getElem?_setPhase hl _, .shut hphase hclosed⟩
    | false =>
      obtain ⟨connections, -, hafter⟩ := foldl_closeConnection (s := s) failing
      obtain ⟨outcome, books, hclaim⟩ : ∃ outcome books, s.books.claim s.settings s.live
          (failing.foldl closeConnection s).live s.now lease.route = (outcome, books) := ⟨_, _, rfl⟩
      have hpass : s.pass? l (.event (.claim l failing)) =
          some ⟨s.live, (failing.foldl closeConnection s).live, s.now⟩ := by
        simp [pass?, hphase?, hphase]
      rw [claim_eq hclosed hclaim, hafter]
      exact ⟨outcome.phase, getElem?_setPhase (s := { s with books := _, connections := _ }) hl _,
        .claim hphase hclaim hpass rfl⟩

/-- Discarding a connection that is closed makes of a lease what it may make. -/
theorem goesOn_unready (hl : s.leases[l]? = some lease) :
    s.GoesOn l lease (.event (.unready l)) (s.step (.unready l)) := by
  have hdiscard : s.discard? l (.event (.unready l)) = lease.phase.taken? := by
    simp [discard?, phase?_of_lease hl]
  rw [step_of_lease (e := .unready l) rfl hl, stepLease]
  cases hphase : lease.phase with
  | readying c =>
    rw [hphase] at hdiscard
    exact ⟨_, getElem?_setPhase (s := s.finish _ _) hl _, .unready hphase rfl hdiscard⟩
  | claiming | connecting | parked | held | ended =>
    rw [hphase] at hdiscard
    exact goesOn_still hl rfl ⟨rfl, hdiscard⟩

/-- The lease leaves the waiting room, to claim once more or because its deadline has passed. -/
theorem goesOn_leave (hl : s.leases[l]? = some lease) {woken : Bool}
    (hparked : lease.phase = .parked woken) (hunseen : s.Unseen l a) {next : Phase}
    (hnext : next = .claiming ∧ a = .event (.resume l) ∨ next = .ended .timedOut) :
    s.GoesOn l lease a (s.leave l lease next) := by
  refine ⟨next, getElem?_setPhase (s := { s with books := _ }) hl _, ?_⟩
  rcases hnext with ⟨rfl, hresume⟩ | rfl
  · exact .resume hparked hunseen hresume
  · exact .expire hparked hunseen

/-- An event by which the lease gets its connection, hands it back, or is given up. -/
theorem goesOn_part (hl : s.leases[l]? = some lease) {e : Event} (he : e.lease? = some l)
    (halone : (Act.event e).isAlone l = false) : s.GoesOn l lease (.event e) (s.step e) := by
  rw [step_of_lease he hl]
  cases e with
  | cancel m =>
    show s.GoesOn l lease _ (s.cancel l lease)
    unfold System.cancel
    split
    case h_1 => exact ⟨_, getElem?_setPhase hl _, .part halone ⟨rfl, rfl⟩ rfl⟩
    case h_2 =>
      exact ⟨_, getElem?_setPhase (s := { s with books := _ }) hl _, .part halone ⟨rfl, rfl⟩ rfl⟩
    case h_3 | h_4 =>
      exact ⟨_, getElem?_setPhase (s := s.finish _ _) hl _, .part halone ⟨rfl, rfl⟩ rfl⟩
    case h_5 | h_6 => exact goesOn_still hl rfl ⟨rfl, rfl⟩
  | ready m =>
    simp only [stepLease]
    split
    case h_1 =>
      exact ⟨_, getElem?_setPhase (s := { s with books := _ }) hl _, .part halone ⟨rfl, rfl⟩ rfl⟩
    case h_2 => exact goesOn_still hl rfl ⟨rfl, rfl⟩
  | connected m =>
    simp only [stepLease]
    split
    case isTrue =>
      exact ⟨_, getElem?_setPhase (s := { s with books := _, connections := _ }) hl _,
        .part halone ⟨rfl, rfl⟩ rfl⟩
    case isFalse => exact goesOn_still hl rfl ⟨rfl, rfl⟩
  | release m keepAlive | drop m =>
    simp only [stepLease]
    split
    case h_1 =>
      exact ⟨_, getElem?_setPhase (s := s.finish _ _) hl _, .part halone ⟨rfl, rfl⟩ rfl⟩
    case h_2 => exact goesOn_still hl rfl ⟨rfl, rfl⟩
  | claim m | unready m | refused m | resume m | expire m =>
    obtain rfl : m = l := Option.some.inj he
    simp [Act.isAlone] at halone
  | start | broadcast | broadcastRemoval | closed | tick | closeExpired | closeIdle | shutdown =>
    cases he

/-- There are no other ways for a lease to go on while no other party acts. -/
theorem goesOn_act (hl : s.leases[l]? = some lease) (hown : a.isOwn l = true) :
    s.GoesOn l lease a (s.act a) := by
  cases a with
  | event e =>
    show s.GoesOn l lease _ (s.step e)
    cases e with
    | claim m failing =>
      obtain rfl : m = l := of_decide_eq_true hown
      exact goesOn_claim hl failing
    | unready m =>
      obtain rfl : m = l := of_decide_eq_true hown
      exact goesOn_unready hl
    | refused m e =>
      obtain rfl : m = l := of_decide_eq_true hown
      rw [step_of_lease (e := .refused m e) rfl hl, stepLease]
      split
      case isFalse => exact goesOn_still hl rfl ⟨rfl, rfl⟩
      case isTrue hphase =>
        exact ⟨_, getElem?_setPhase (s := s.finish _ _) hl _, .refuse hphase e ⟨rfl, rfl⟩⟩
    | resume m =>
      obtain rfl : m = l := of_decide_eq_true hown
      rw [step_of_lease (e := .resume m) rfl hl, stepLease]
      split
      case isFalse => exact goesOn_still hl rfl ⟨rfl, rfl⟩
      case isTrue hparked => exact goesOn_leave hl hparked ⟨rfl, rfl⟩ (.inl ⟨rfl, rfl⟩)
    | expire m =>
      obtain rfl : m = l := of_decide_eq_true hown
      rw [step_of_lease (e := .expire m) rfl hl, stepLease]
      split
      case isFalse => exact goesOn_still hl rfl ⟨rfl, rfl⟩
      case isTrue hdue =>
        rw [Bool.and_eq_true, decide_eq_true_eq] at hdue
        exact goesOn_leave hl hdue.1 ⟨rfl, rfl⟩ (.inr rfl)
    | ready m | connected m | cancel m | release m | drop m =>
      -- these end or hand over what the lease has, which one lemma says for all of them
      obtain rfl : m = l := of_decide_eq_true hown
      exact goesOn_part hl rfl rfl
    | closed => exact goesOn_still hl rfl ⟨rfl, rfl⟩
    | broadcast | broadcastRemoval | tick =>
      refine goesOn_wake (step_other hl (by simp [Event.lease?])) ?_ ⟨rfl, rfl⟩
      simp only [step]
      split <;> rfl
    | start | closeExpired | closeIdle | shutdown => cases hown
  | aside a =>
    show s.GoesOn l lease _ (s.aside a)
    cases a with
    | clock time => exact goesOn_still hl rfl ⟨rfl, rfl⟩
    | evict => cases hown
    | reorder routes =>
      simp only [aside]
      split
      case isFalse => exact goesOn_still hl rfl ⟨rfl, rfl⟩
      case isTrue hperm => exact ⟨_, hl, .reorder hperm ⟨rfl, rfl⟩⟩
    | wakeEarly m =>
      have hbooks : (s.aside (.wakeEarly m)).books = s.books := by
        simp only [aside]
        split <;> rfl
      rcases aside_cases hl (.wakeEarly m) with hsame | hwoken | ⟨hnever, -⟩
      · exact goesOn_wake (.inl hsame) hbooks ⟨rfl, rfl⟩
      · exact goesOn_wake (.inr hwoken) hbooks ⟨rfl, rfl⟩
      · cases hnever
    | expireWoken m =>
      obtain rfl : m = l := of_decide_eq_true hown
      simp only [aside, hl]
      split
      case isFalse => exact goesOn_still hl rfl ⟨rfl, rfl⟩
      case isTrue hparked => exact goesOn_leave hl hparked.1 ⟨rfl, rfl⟩ (.inr rfl)

end System
end PooledHttp.Pool
