import PooledHttp.Proofs.Pool.Caps
import PooledHttp.Proofs.Pool.Counts
import PooledHttp.Proofs.Pool.Ownership
import PooledHttp.Proofs.Pool.Phases

/-!
# The history of a pool

What holds of the past of a pool cannot be read off its state, so a run is written here as the list
of its acts, each an event or an aside. `System.play` says what they come to, and every run can be
written so (`System.reachable_iff_play`).

Most acts are quiet: no lease gets a connection or a place, no connection is parked, and nothing is
counted. `System.Progress` lists the other four kinds with what is known of each, and
`System.progress` says that there are no others.
-/

set_option autoImplicit false

namespace PooledHttp.Pool

/-- What happens in a run of a pool. -/
inductive Act where
  | event (e : Event)
  | aside (a : Aside)

/-- Where a lease stands after a claim. -/
def Claim.phase : Claim → Phase
  | .reuse c => .readying c
  | .connect => .connecting
  | .wait => .parked false

/-- The books after a claim, with the wait of the lease entered if it has to wait. -/
def Claim.record (route : Route) (books : State) : Claim → State
  | .reuse _ | .connect => books
  | .wait => books.addPending route

namespace System

/-- What an act does. -/
def act (s : System) : Act → System
  | .event e => s.step e
  | .aside a => s.aside a

/-- What a list of acts does. -/
def play (s : System) (acts : List Act) : System := acts.foldl act s

/-- The books that a claim goes through before the lease is entered; no other act has such stages.
-/
def stages (s : System) : Act → List State
  | .event (.claim l failing) => match s.leases[l]? with
    | some lease =>
      if lease.phase = .claiming ∧ s.books.closed = false then
        s.books.claimStages s.settings s.live (failing.foldl closeConnection s).live s.now lease.route
      else []
    | none => []
  | _ => []

variable {s t : System} {l : LeaseId} {lease : Lease}

/-! ## Runs as lists of acts -/

/-- Two series of acts are played one after the other. -/
theorem play_append (s : System) (acts more : List Act) :
    s.play (acts ++ more) = (s.play acts).play more :=
  List.foldl_append

/-- The last act of a series is played last. -/
theorem play_concat (s : System) (acts : List Act) (a : Act) :
    s.play (acts ++ [a]) = (s.play acts).act a :=
  play_append s acts [a]

/-- An act is a number of moves. -/
theorem reaches_act (s : System) (a : Act) : Reaches s (s.act a) := by
  cases a with
  | event e => exact reaches_step s e
  | aside a => exact reaches_aside s a

/-- A series of acts is a number of moves. -/
theorem reaches_play (s : System) (acts : List Act) : Reaches s (s.play acts) := by
  induction acts generalizing s with
  | nil => exact .refl
  | cons a acts ih => exact (reaches_act s a).trans (ih (s.act a))

/-- Every move is an act. -/
theorem Move.exists_act (h : Move s t) : ∃ a, t = s.act a := by
  cases h with
  | event e => exact ⟨.event e, rfl⟩
  | clock time => exact ⟨.aside (.clock time), rfl⟩
  | reorder routes h => exact ⟨.aside (.reorder routes), (if_pos h).symm⟩
  | evict live keep => exact ⟨.aside (.evict live keep), rfl⟩
  | wakeEarly l h => exact ⟨.aside (.wakeEarly l), (if_pos h).symm⟩
  | expireWoken l lease hl hphase hdeadline =>
    refine ⟨.aside (.expireWoken l), ?_⟩
    simp only [act, aside, hl]
    exact (if_pos ⟨hphase, hdeadline⟩).symm

/-- The states that can come about are those to which some list of acts leads. -/
theorem reachable_iff_play {settings : PoolSettings} :
    Reachable settings s ↔ ∃ acts, s = (init settings).play acts := by
  constructor
  · intro h
    induction h with
    | refl => exact ⟨[], rfl⟩
    | tail _ hlast ih =>
      obtain ⟨acts, rfl⟩ := ih
      obtain ⟨a, rfl⟩ := hlast.exists_act
      exact ⟨acts ++ [a], (play_concat _ acts a).symm⟩
  · rintro ⟨acts, rfl⟩
    exact reaches_play _ acts

/-! ## Quiet acts -/

/-- What an act does when no lease gets a connection or a place and no connection is parked. -/
structure Quiet (s t : System) : Prop where
  connections : s.SameConnections t.connections
  retains : s.books.Retains t.books
  idle : ∀ r, (t.books.account r).idle.Sublist (s.books.account r).idle
  places : ∀ (l : LeaseId) (phase : Phase), t.phase? l = some phase → phase.hasPlace = true →
    s.phase? l = some phase

/-- An act that does nothing is quiet. -/
theorem Quiet.refl (s : System) : Quiet s s :=
  ⟨rfl, .refl _, fun _ => List.Sublist.refl _, fun _ _ hphase _ => hphase⟩

/-- A change of the books alone. -/
theorem Quiet.of_books (hleases : t.leases = s.leases)
    (hconns : s.SameConnections t.connections) (hretains : s.books.Retains t.books)
    (hidle : ∀ r, (t.books.account r).idle.Sublist (s.books.account r).idle) : Quiet s t := by
  refine ⟨hconns, hretains, hidle, ?_⟩
  intro l phase hphase _
  rwa [phase?, hleases] at hphase

/-- A lease that has no place afterwards. -/
theorem Quiet.setPhase (h : Quiet s t) {next : Phase} (hnext : next.hasPlace = false) :
    Quiet s (t.setPhase l next) := by
  refine ⟨h.connections, h.retains, h.idle, ?_⟩
  intro m phase hphase hplace
  rcases phase?_of_setPhase rfl hphase with ⟨-, rfl⟩ | hsame
  · rw [hnext] at hplace
    cases hplace
  · exact h.places m phase hsame hplace

/-- A lease that gives back its place and closes its connection. -/
theorem Quiet.finish (hacc : s.Accounted) (hl : s.leases[l]? = some lease)
    (hplace : lease.phase.hasPlace = true) : Quiet s (s.finish lease.route none) := by
  have hknown := State.find?_isSome_of_leased (hacc.leased_pos hl hplace)
  refine .of_books rfl rfl (.finishLease hacc.balanced.keyed hknown s.live none) ?_
  intro r
  rw [books_finish, State.account_finishLease _ _ _ hacc.balanced.keyed]
  split
  case isTrue hr => simp [State.kept, hr]
  case isFalse => exact List.Sublist.refl _

/-- A parked lease that leaves does so quietly. -/
theorem Quiet.leave (hacc : s.Accounted) (l : LeaseId) (lease : Lease) {next : Phase}
    (hnext : next.hasPlace = false) : Quiet s (s.leave l lease next) := by
  have hbooks : Quiet s { s with books := s.books.removePending lease.route } := by
    refine .of_books rfl rfl (.removePending hacc.balanced.keyed lease.route) ?_
    intro r
    rw [State.idle_removePending _ hacc.balanced.keyed]
  exact hbooks.setPhase hnext

/-- Removing idle connections is quiet. -/
theorem Quiet.evict (hacc : s.Accounted) (live : ConnId → Bool) (keep : IdleConnection → Bool)
    (owed : Nat) : Quiet s { s with
      books := (s.books.evict live keep).2, owedByRemovals := owed } := by
  refine .of_books rfl rfl (.evict hacc.balanced.keyed live keep) ?_
  intro r
  exact (State.Swept.evict hacc.balanced live keep).idle r

/-- Waking the parked leases is quiet. -/
theorem Quiet.wakeAll (s : System) (owed owedByRemovals : Nat) : Quiet s { s with
    owed := owed, owedByRemovals := owedByRemovals, leases := s.leases.map wake } := by
  refine ⟨rfl, .refl _, fun _ => List.Sublist.refl _, ?_⟩
  intro l phase hphase hplace
  obtain ⟨was, hwas, rfl⟩ : ∃ was, s.leases[l]? = some was ∧ (wake was).phase = phase := by
    simpa [phase?, Option.map_eq_some_iff] using hphase
  -- a lease with a place is not parked, so nobody wakes it
  unfold wake at hplace ⊢
  split at hplace
  case h_1 => cases hplace
  case h_2 => exact phase?_of_lease hwas

/-- A lease that begins to claim does so quietly. -/
theorem Quiet.start (s : System) (new : Lease) (hnew : new.phase = .claiming) :
    Quiet s { s with leases := s.leases ++ [new] } := by
  refine ⟨rfl, .refl _, fun _ => List.Sublist.refl _, ?_⟩
  intro l phase hphase hplace
  obtain ⟨lease, hl, rfl⟩ := Option.map_eq_some_iff.1 hphase
  rw [List.getElem?_append] at hl
  split at hl
  case isTrue => exact phase?_of_lease hl
  case isFalse =>
    have hlease : lease = new := List.mem_singleton.1 (List.mem_of_getElem? hl)
    rw [hlease, hnew] at hplace
    cases hplace

/-- Shutting the pool down is quiet. -/
theorem Quiet.shutdown (s : System) (owed : Nat) :
    Quiet s { s with books := s.books.shutdown, owed := owed } := by
  have hmap : s.books.Retains s.books.shutdown := by
    have hretains := State.Retains.map (s := s.books) (f := fun p => { p with idle := [] })
      fun _ => ⟨rfl, rfl⟩
    exact ⟨rfl, rfl, hretains.entry⟩
  refine .of_books rfl rfl hmap ?_
  intro r
  rw [State.account_shutdown]
  exact List.nil_sublist _

/-! ## The books afterwards -/

/-- A lease that releases its connection leaves the counts as they are. -/
theorem retains_release (hacc : s.Accounted) (hl : s.leases[l]? = some lease) {k : Held}
    (hphase : lease.phase = .held k) (keepAlive : Millis) :
    s.books.Retains (s.release l lease k keepAlive).books := by
  have hplace : lease.phase.hasPlace = true := by rw [hphase]; rfl
  have hknown := State.find?_isSome_of_leased (hacc.leased_pos hl hplace)
  rw [release, books_setPhase, books_finish]
  exact .finishLease hacc.balanced.keyed hknown s.live _

/-- Recording the outcome of a claim changes no idle connection. -/
@[simp]
theorem idle_record (route : Route) (books : State) (outcome : Claim) (r : Route) :
    ((outcome.record route books).account r).idle = (books.account r).idle := by
  cases outcome with
  | reuse | connect => rfl
  | wait => exact State.idle_addPending route r

/-- When a lease hands its connection back, this is listed last if it becomes idle. -/
theorem idle_release_sublist (hbooks : s.books.Balanced) (k : Held) (keepAlive : Millis) (r : Route) :
    ((s.release l lease k keepAlive).books.account r).idle.Sublist ((s.books.account r).idle ++
      [⟨k.conn, s.now, if keepAlive = 0 then none else some (s.now + keepAlive), k.createdAt,
        k.useCount⟩]) := by
  rw [release, books_setPhase, books_finish, State.account_finishLease _ _ _ hbooks.keyed]
  split
  case isFalse => exact List.sublist_append_left _ _
  case isTrue hr =>
    rw [hr]
    exact (State.kept_sublist s.books s.live (some _)).append_left _

/-- When a lease hands its connection back, nothing else becomes idle. -/
theorem idle_release (hbooks : s.books.Balanced) {k : Held} {keepAlive : Millis} {r : Route}
    {i : IdleConnection}
    (hi : i ∈ ((s.release l lease k keepAlive).books.account r).idle) :
    i ∈ (s.books.account r).idle ∨ i = ⟨k.conn, s.now,
      if keepAlive = 0 then none else some (s.now + keepAlive), k.createdAt, k.useCount⟩ := by
  have hlisted := (idle_release_sublist hbooks k keepAlive r).subset hi
  exact (List.mem_append.1 hlisted).imp_right List.mem_singleton.1

/-! ## The kinds of acts -/

/-- What an act does: it is one of four, or quiet. -/
inductive Progress (s : System) : Act → System → Prop
  /-- A lease gets an idle connection. -/
  | ready {l : LeaseId} {lease : Lease} {c : IdleConnection} (hl : s.leases[l]? = some lease)
    (hphase : lease.phase = .readying c) : Progress s (.event (.ready l)) (s.ready l lease c)
  /-- A lease gets a new connection. -/
  | connected {l : LeaseId} {lease : Lease} (hl : s.leases[l]? = some lease)
    (hphase : lease.phase = .connecting) :
    Progress s (.event (.connected l)) (s.connected l lease)
  | release {l : LeaseId} {lease : Lease} {h : Held} (hl : s.leases[l]? = some lease)
    (hphase : lease.phase = .held h) (keepAlive : Millis) :
    Progress s (.event (.release l keepAlive)) (s.release l lease h keepAlive)
  | claim {l : LeaseId} {lease : Lease} (hl : s.leases[l]? = some lease)
    (hphase : lease.phase = .claiming) (hopen : s.books.closed = false) {failing : List ConnId}
    {connections : List Connection} (hconns : s.SameConnections connections) {outcome : Claim}
    {books : State}
    (hclaim : s.books.claim s.settings s.live (failing.foldl closeConnection s).live s.now
      lease.route = (outcome, books)) :
    Progress s (.event (.claim l failing))
      ({ s with books := outcome.record lease.route books, connections := connections }.setPhase l
        outcome.phase)
  | quiet {a : Act} {t : System} (hquiet : Quiet s t) (hstages : s.stages a = []) : Progress s a t

/-- What a claim in a pool that is open leaves behind. -/
theorem claim_eq (hopen : s.books.closed = false) {failing : List ConnId} {outcome : Claim}
    {books : State}
    (hclaim : s.books.claim s.settings s.live (failing.foldl closeConnection s).live s.now
      lease.route = (outcome, books)) :
    s.claim l lease failing = { failing.foldl closeConnection s with
      books := outcome.record lease.route books }.setPhase l outcome.phase := by
  rw [System.claim, hopen, if_neg Bool.false_ne_true]
  simp only [hclaim]
  cases outcome <;> rfl

/-- A claim is an act of one of the kinds. -/
theorem progress_claim (hl : s.leases[l]? = some lease) (hphase : lease.phase = .claiming)
    (failing : List ConnId) : Progress s (.event (.claim l failing)) (s.claim l lease failing) := by
  obtain ⟨connections, hconns, hafter⟩ := foldl_closeConnection (s := s) failing
  cases hclosed : s.books.closed with
  | true =>
    rw [System.claim, if_pos hclosed]
    exact .quiet ((Quiet.refl s).setPhase rfl) (by simp [stages, hl, hclosed])
  | false =>
    cases hclaim : s.books.claim s.settings s.live (failing.foldl closeConnection s).live s.now
      lease.route with
    | mk outcome books =>
      rw [claim_eq hclosed hclaim, hafter]
      exact .claim hl hphase hclosed hconns hclaim

/-- What a lease does is an act of one of the kinds. -/
theorem progress_lease (hacc : s.Accounted) (hl : s.leases[l]? = some lease) {e : Event}
    (he : e.lease? = some l) : Progress s (.event e) (s.stepLease l lease e) := by
  have hplaced {p : Phase} (hphase : lease.phase = p) (hp : p.hasPlace = true) {next : Phase}
      (hnext : next.hasPlace = false) : Quiet s ((s.finish lease.route none).setPhase l next) :=
    (Quiet.finish hacc hl (hphase ▸ hp)).setPhase hnext
  cases e with
  | claim m failing =>
    obtain rfl := Option.some.inj he
    simp only [stepLease]
    split
    case isTrue h => exact progress_claim hl h failing
    case isFalse h => exact .quiet (.refl s) (by simp [stages, hl, h])
  | ready m =>
    obtain rfl := Option.some.inj he
    simp only [stepLease]
    split
    case h_1 c h => exact .ready hl h
    case h_2 => exact .quiet (.refl s) rfl
  | connected m =>
    obtain rfl := Option.some.inj he
    simp only [stepLease]
    split
    case isTrue h => exact .connected hl h
    case isFalse => exact .quiet (.refl s) rfl
  | release m keepAlive =>
    obtain rfl := Option.some.inj he
    simp only [stepLease]
    split
    case h_1 h hheld => exact .release hl hheld keepAlive
    case h_2 => exact .quiet (.refl s) rfl
  | unready =>
    simp only [stepLease]
    split
    case h_1 c h => exact .quiet (hplaced h rfl rfl) rfl
    case h_2 => exact .quiet (.refl s) rfl
  | refused _ error =>
    simp only [stepLease]
    split
    case isTrue h => exact .quiet (hplaced h rfl rfl) rfl
    case isFalse => exact .quiet (.refl s) rfl
  | drop =>
    simp only [stepLease]
    split
    case h_1 h hheld => exact .quiet (hplaced hheld rfl rfl) rfl
    case h_2 => exact .quiet (.refl s) rfl
  | resume | expire =>
    simp only [stepLease]
    split
    case isTrue => exact .quiet (.leave hacc l lease rfl) rfl
    case isFalse => exact .quiet (.refl s) rfl
  | cancel =>
    show Progress s _ (s.cancel l lease)
    unfold System.cancel
    split
    case h_1 => exact .quiet ((Quiet.refl s).setPhase rfl) rfl
    case h_2 => exact .quiet (.leave hacc l lease rfl) rfl
    case h_3 c h => exact .quiet (hplaced h rfl rfl) rfl
    case h_4 h => exact .quiet (hplaced h rfl rfl) rfl
    case h_5 | h_6 => exact .quiet (.refl s) rfl
  | start | broadcast | broadcastRemoval | closed | tick | closeExpired | closeIdle | shutdown =>
    cases he

/-- An aside is an act of one of the kinds. -/
theorem progress_aside (hacc : s.Accounted) (a : Aside) : Progress s (.aside a) (s.aside a) := by
  refine .quiet ?_ rfl
  cases a with
  | clock time => exact .of_books rfl rfl (.refl _) fun _ => List.Sublist.refl _
  | reorder routes =>
    simp only [aside]
    split
    case isFalse => exact .refl s
    case isTrue h =>
      refine .of_books rfl rfl (.reorder hacc.balanced.keyed h) ?_
      intro r
      rw [State.account_reorder hacc.balanced.keyed h]
  | evict live keep => exact .evict hacc live keep _
  | wakeEarly l =>
    simp only [aside]
    split
    case isTrue => exact (Quiet.refl s).setPhase rfl
    case isFalse => exact .refl s
  | expireWoken l =>
    simp only [aside]
    split
    case h_1 lease hl =>
      split
      case isTrue => exact .leave hacc l lease rfl
      case isFalse => exact .refl s
    case h_2 => exact .refl s

/-- Every act is one of the four, or quiet. -/
theorem progress (hacc : s.Accounted) (a : Act) : Progress s a (s.act a) := by
  cases a with
  | aside a => exact progress_aside hacc a
  | event e =>
    show Progress s _ (s.step e)
    cases he : e.lease? with
    | some l =>
      rw [step_lease he]
      cases hl : s.leases[l]? with
      | none =>
        refine .quiet (.refl s) ?_
        cases e with
        | claim m failing =>
          obtain rfl := Option.some.inj he
          simp [stages, hl]
        | _ => rfl
      | some lease => exact progress_lease hacc hl he
    | none =>
      cases e with
      | start route limit => exact .quiet (.start s _ rfl) rfl
      | broadcast | broadcastRemoval =>
        refine .quiet ?_ rfl
        simp only [step]
        split
        · exact .refl s
        · exact .wakeAll s _ _
      | closed c =>
        refine .quiet (.of_books rfl ?_ (.refl _) fun _ => List.Sublist.refl _) rfl
        exact sameConnections_modify c rfl
      | tick time =>
        refine .quiet ?_ rfl
        simp only [step]
        split
        · exact .of_books rfl rfl (.refl _) fun _ => List.Sublist.refl _
        · exact .refl s
      | closeExpired | closeIdle => exact .quiet (.evict hacc _ _ _) rfl
      | shutdown =>
        refine .quiet ?_ rfl
        simp only [step]
        split
        · exact .refl s
        · exact .shutdown s _
      | claim | ready | unready | connected | refused | resume | expire | cancel | release | drop =>
        cases he

end System
end PooledHttp.Pool
