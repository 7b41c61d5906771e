import PooledHttp.Client.Service
import PooledHttp.Proofs.Pool.Histories

/-!
# Runs of a pool with its clients

In a run, events of the clients and of the pool follow one another in any order, with the asides of
the pool between them. `Service.after` is what a list of such happenings makes of a service.

Most happenings leave the calls alone, or take one attempt a little further; some end an attempt.
`Service.ending?` says which attempt ends, what is done with its connection, and what it has come to.
`Service.Turn` lists all ways in which a service goes on, and `Service.turn` says that there are no
others. What the clients do to the pool is again a run of the pool, so all that is known of a pool
holds of a pool with clients.
-/

set_option autoImplicit false

namespace PooledHttp

/-- The events by which calls work with their leases. -/
def Pool.Event.isOfCall : Pool.Event → Bool
  | .start _ _ | .cancel _ | .drop _ | .release _ _ => true
  | _ => false

/-- A URL without a route is an invalid request. -/
theorem Route.exists_of_ofUri_error {uri : Uri} {error : ClientError}
    (h : Route.ofUri uri = .error error) : ∃ reason, error = .invalidRequest reason := by
  unfold ofUri at h
  split at h
  case h_1 => exact ⟨_, (Except.error.inj h).symm⟩
  case h_2 =>
    split at h
    case h_1 => exact ⟨_, (Except.error.inj h).symm⟩
    case h_2 =>
      split at h
      case h_1 | h_2 => exact ⟨_, (Except.error.inj h).symm⟩
      case h_3 => cases h

/-- A request that cannot be prepared is an invalid request. -/
theorem Request.exists_of_prepare_error {request : Request} {expectContinue : Bool} {route : Route}
    {error : ClientError} (h : request.prepare expectContinue route = .error error) :
    ∃ reason, error = .invalidRequest reason := by
  unfold prepare at h
  split at h
  case h_1 => exact ⟨_, (Except.error.inj h).symm⟩
  case h_2 =>
    split at h
    case h_2 => cases h
    case h_1 hhost =>
      obtain rfl := Except.error.inj h
      unfold Header.withHost at hhost
      split at hhost
      case isTrue => cases hhost
      case isFalse =>
        split at hhost
        case isTrue => cases hhost
        case isFalse => exact ⟨_, (Except.error.inj hhost).symm⟩

namespace Client

open Pool

/-- What can happen in a run. -/
inductive Happening where
  | event (e : Event)
  | aside (a : Aside)

/-- An act of the pool alone. -/
def Happening.ofAct : Act → Happening
  | .event e => .event (.pool e)
  | .aside a => .aside a

/-- The call that a happening is about. -/
def Happening.call? : Happening → Option CallId
  | .event (.proceed i) | .event (.arrive i _) | .event (.overdue i) | .event (.cancel i) => some i
  | .event (.submit _) | .event (.abandon _) | .event (.pool _) | .aside _ => none

/-- The end of an attempt. -/
structure Ending where
  call : CallId
  request : Request
  attempt : Attempt
  /-- What is done with the connection, if the attempt has one. -/
  handling : Option Pool.Event
  outcome : Except ClientError Response

namespace Service

/-- What a happening makes of a service. -/
def happen (s : Service) : Happening → Service
  | .event e => s.step e
  | .aside a => { s with pool := s.pool.aside a }

/-- What a list of happenings makes of a service. -/
def after (s : Service) (xs : List Happening) : Service := xs.foldl happen s

/-- The attempt of a call that is under way. -/
def attempt? (s : Service) (i : CallId) : Option Attempt :=
  (s.calls[i]?).bind fun call => call.stage.attempt?

/-- How a connection is given back after a response. -/
def handing (s : Service) (a : Attempt) (response : Response) : Pool.Event :=
  if response.head.wantsClose then .drop a.lease
  else .release a.lease (s.settings.keepAlive.duration response.head.header)

/-- The end of an attempt whose exchange has failed. -/
def failing (i : CallId) (request : Request) (a : Attempt) (failure : ReadFailure) : Ending :=
  ⟨i, request, a, some (.drop a.lease), .error (.transport (failure.toError a.route.name))⟩

/-- The end of an attempt that a happening brings. -/
def ending? (s : Service) : Happening → Option Ending
  | .event (.proceed i) => (s.calls[i]?).bind fun call => match call.stage with
    | .leasing a => match (s.pool.phase? a.lease).bind (leaseOutcome? a.route) with
      | some (.error e) => some ⟨i, call.request, a, none, .error e⟩
      | _ => none
    | _ => none
  | .event (.arrive i arrival) => (s.calls[i]?).bind fun call => match call.stage with
    | .exchanging a reading => match reading.receive s.pool.now arrival with
      | .complete response =>
        some ⟨i, call.request, a, some (s.handing a response), .ok response⟩
      | .failed failure => some (failing i call.request a failure)
      | .waiting _ => none
    | _ => none
  | .event (.overdue i) => (s.calls[i]?).bind fun call => match call.stage with
    | .exchanging a reading =>
      if reading.isOverdue s.pool.now then some (failing i call.request a .timedOut) else none
    | _ => none
  | _ => none

/-- The pool after the connection of an attempt has been dealt with. -/
def settle (s : Service) (e : Ending) : Service := (e.handling.map s.inPool).getD s

/-- Enter a call. -/
def push (s : Service) (call : Call) : Service := { s with calls := s.calls ++ [call] }

/-- All attempts under way have been prepared. -/
def Prepared (s : Service) : Prop :=
  ∀ (i : CallId) (call : Call) (a : Attempt), s.calls[i]? = some call →
    call.stage.attempt? = some a → ∃ wire,
      call.request.prepare s.settings.request.expectContinue a.route = .ok wire

/-- How the pool goes on without touching the leases of attempts. -/
inductive Outside (s : Service) : Happening → System → Prop
  | stay (x : Happening) : s.Outside x s.pool
  | event (e : Pool.Event) (h : s.isReserved e = false) : s.Outside (.event (.pool e)) (s.pool.step e)
  | shutdown : s.Outside (.event (.abandon true)) (s.pool.step .shutdown)
  | aside (a : Aside) : s.Outside (.aside a) (s.pool.aside a)

/-- How a service goes on. -/
inductive Turn (s : Service) (x : Happening) : Service → Prop
  /-- No call has a part in it. -/
  | outside (hnone : s.ending? x = none) {p : System} (h : s.Outside x p) (owned : Bool) :
    Turn s x { s with owned := owned, pool := p }
  | reject (hnone : s.ending? x = none) (request : Request) (e : ClientError) :
    Turn s x (s.push ⟨request, .finished 0 (.error e)⟩)
  | accept (hnone : s.ending? x = none) {request : Request} {route : Route} {wire : WireRequest}
    (hprep : request.prepare s.settings.request.expectContinue route = .ok wire) :
    Turn s x ((s.inPool (.start route s.settings.request.leaseTimeout)).push
      ⟨request, .leasing ⟨route, 1, s.pool.leases.length⟩⟩)
  /-- The request is sent, or a part of the response is taken in. -/
  | exchange (hnone : s.ending? x = none) {i : CallId} {call : Call} {a : Attempt}
    (hi : s.calls[i]? = some call)
    (hstage : call.stage = .leasing a ∧ (∃ held, s.pool.phase? a.lease = some (.held held)) ∨
      ∃ before, call.stage = .exchanging a before) (reading : Reading) :
    Turn s x (s.setStage i (.exchanging a reading))
  | finish {e : Ending} (he : s.ending? x = some e) {result : Except ClientError Response}
    (hverdict : s.settings.retry.verdict e.request.isIdempotent e.attempt.number e.outcome =
      some result) :
    Turn s x ((s.settle e).setStage e.call (.finished e.attempt.number result))
  | retry {e : Ending} (he : s.ending? x = some e)
    (hverdict : s.settings.retry.verdict e.request.isIdempotent e.attempt.number e.outcome = none) :
    Turn s x (((s.settle e).inPool
      (.start e.attempt.route s.settings.request.leaseTimeout)).setStage e.call
        (.leasing ⟨e.attempt.route, e.attempt.number + 1, s.pool.leases.length⟩))
  | cancel (hnone : s.ending? x = none) {i : CallId} {call : Call} {a : Attempt}
    (hi : s.calls[i]? = some call) (ha : call.stage.attempt? = some a) :
    Turn s x (((s.inPool (.cancel a.lease)).inPool (.drop a.lease)).setStage i .cancelled)

variable {s t : Service} {x : Happening} {i j : CallId} {call : Call} {a : Attempt} {e : Ending}

/-- What happens in the pool is a step of the pool. -/
@[simp]
theorem pool_inPool (event : Pool.Event) : (s.inPool event).pool = s.pool.step event := rfl

/-- A call changes its stage without touching the pool. -/
@[simp]
theorem pool_setStage (stage : Stage) : (s.setStage i stage).pool = s.pool := rfl

/-! ## The end of an attempt -/

/-- The ways in which an attempt ends. -/
inductive Ends (s : Service) : Happening → Ending → Prop
  | noLease {i : CallId} {call : Call} {a : Attempt} {error : ClientError}
    (hi : s.calls[i]? = some call) (hstage : call.stage = .leasing a)
    (houtcome : (s.pool.phase? a.lease).bind (leaseOutcome? a.route) = some (.error error)) :
    Ends s (.event (.proceed i)) ⟨i, call.request, a, none, .error error⟩
  | answered {i : CallId} {call : Call} {a : Attempt} {reading : Reading} {head : ResponseHead}
    (hi : s.calls[i]? = some call) (hstage : call.stage = .exchanging a reading)
    (hhead : reading.head = some head) :
    Ends s (.event (.arrive i .finished))
      ⟨i, call.request, a, some (s.handing a ⟨head, reading.body⟩), .ok ⟨head, reading.body⟩⟩
  | broken {i : CallId} {call : Call} {a : Attempt} {reading : Reading}
    (hi : s.calls[i]? = some call) (hstage : call.stage = .exchanging a reading)
    (fault : ConnectionFault) :
    Ends s (.event (.arrive i (.fault fault))) (failing i call.request a (.fault fault))
  | late {i : CallId} {call : Call} {a : Attempt} {reading : Reading}
    (hi : s.calls[i]? = some call) (hstage : call.stage = .exchanging a reading)
    (hlate : reading.isOverdue s.pool.now = true) :
    Ends s (.event (.overdue i)) (failing i call.request a .timedOut)

/-- A response that is complete has been read to the end of its body. -/
theorem receive_complete {r : Reading} {now : Millis} {arrival : Arrival} {response : Response}
    (h : r.receive now arrival = .complete response) :
    arrival = .finished ∧ r.head = some response.head ∧ r.body = response.body := by
  cases arrival with
  | finished =>
    simp only [Reading.receive] at h
    split at h
    case h_1 head hhead =>
      obtain rfl := Reading.Progress.complete.inj h
      exact ⟨rfl, hhead, rfl⟩
    case h_2 => cases h
  | head | data | trailer | fault => cases h

/-- Reading fails only by a fault that arrives, and with that fault. -/
theorem receive_failed {r : Reading} {now : Millis} {arrival : Arrival} {failure : ReadFailure}
    (h : r.receive now arrival = .failed failure) :
    ∃ fault, arrival = .fault fault ∧ failure = .fault fault := by
  cases arrival with
  | fault fault => exact ⟨fault, rfl, (Reading.Progress.failed.inj h).symm⟩
  | finished =>
    simp only [Reading.receive] at h
    split at h <;> cases h
  | head | data | trailer => cases h

/-- The end of an attempt that is computed is one by the rules. -/
theorem ends_of_ending (h : s.ending? x = some e) : s.Ends x e := by
  unfold ending? at h
  split at h
  case h_1 i =>
    obtain ⟨call, hi, h⟩ := Option.bind_eq_some_iff.1 h
    split at h
    case h_1 a hstage =>
      split at h
      case h_1 error houtcome =>
        obtain rfl := Option.some.inj h
        exact .noLease hi hstage houtcome
      case h_2 => cases h
    case h_2 => cases h
  case h_2 i arrival =>
    obtain ⟨call, hi, h⟩ := Option.bind_eq_some_iff.1 h
    split at h
    case h_1 a reading hstage =>
      split at h
      case h_1 response hcomplete =>
        obtain rfl := Option.some.inj h
        obtain ⟨rfl, hhead, hbody⟩ := receive_complete hcomplete
        obtain ⟨head, body⟩ := response
        obtain rfl : reading.body = body := hbody
        exact .answered hi hstage hhead
      case h_2 failure hfailed =>
        obtain rfl := Option.some.inj h
        obtain ⟨fault, rfl, rfl⟩ := receive_failed hfailed
        exact .broken hi hstage fault
      case h_3 => cases h
    case h_2 => cases h
  case h_3 i =>
    obtain ⟨call, hi, h⟩ := Option.bind_eq_some_iff.1 h
    split at h
    case h_1 a reading hstage =>
      split at h
      case isTrue hlate =>
        obtain rfl := Option.some.inj h
        exact .late hi hstage hlate
      case isFalse => cases h
    case h_2 => cases h
  case h_4 => cases h

/-- The attempt that ends was under way. -/
theorem Ends.attempt (h : s.Ends x e) : ∃ call, s.calls[e.call]? = some call ∧
    call.request = e.request ∧ call.stage.attempt? = some e.attempt := by
  cases h with
  | noLease hi hstage | answered hi hstage | broken hi hstage | late hi hstage =>
    exact ⟨_, hi, rfl, by rw [hstage]; rfl⟩

/-- What is done with the connection of an attempt yields the lease of the attempt. -/
theorem Ends.yields (h : s.Ends x e) :
    ∀ handling ∈ e.handling, handling.yields? = some e.attempt.lease := by
  cases h with
  | noLease => exact nofun
  | answered =>
    intro handling hhandling
    obtain rfl := Option.some.inj hhandling
    unfold handing
    split <;> rfl
  | broken | late =>
    intro handling hhandling
    obtain rfl := Option.some.inj hhandling
    rfl

/-- Settling a lease takes no lease away and adds none. -/
theorem Ends.length_leases (h : s.Ends x e) :
    (s.settle e).pool.leases.length = s.pool.leases.length := by
  have hyields := h.yields
  unfold settle
  cases hhandling : e.handling with
  | none => rfl
  | some handling =>
    exact System.length_leases_step (Event.lease?_of_yields (hyields handling hhandling))

/-- Settling a lease changes no setting. -/
@[simp]
theorem settings_settle : (s.settle e).settings = s.settings := by
  unfold settle
  cases e.handling <;> rfl

/-- When an attempt ends, its connection is dealt with and the outcome decides how the call goes
on. -/
theorem happen_of_ends (h : s.Ends x e) :
    s.happen x = (s.settle e).conclude e.call e.request e.attempt e.outcome := by
  cases h with
  | noLease hi hstage houtcome => simp [happen, step, hi, proceed, hstage, houtcome, settle]
  | answered hi hstage hhead =>
    simp [happen, step, hi, arrive, hstage, Reading.receive, hhead, complete, settle, handing]
  | broken hi hstage fault =>
    simp [happen, step, hi, arrive, hstage, Reading.receive, fail, settle, failing]
  | late hi hstage hlate => simp [happen, step, hi, overdue, hstage, hlate, fail, settle, failing]

/-! ## Turns -/

/-- A lease comes out well when it holds a connection. -/
theorem held_of_leaseOutcome {route : Route} {phase : Phase}
    (h : leaseOutcome? route phase = some (.ok ())) : ∃ held, phase = .held held := by
  unfold leaseOutcome? at h
  split at h
  case h_1 held => exact ⟨held, rfl⟩
  all_goals cases h

/-- The end of an attempt is a turn of the service. -/
theorem turn_of_ends (hprep : s.Prepared) (he : s.ending? x = some e) : Turn s x (s.happen x) := by
  have hends := ends_of_ending he
  obtain ⟨call, hi, hrequest, ha⟩ := hends.attempt
  obtain ⟨wire, hwire⟩ := hprep e.call call e.attempt hi ha
  rw [hrequest] at hwire
  rw [happen_of_ends hends, conclude, settings_settle]
  split
  case h_1 result hverdict => exact .finish he hverdict
  case h_2 hverdict =>
    simp only [begin, settings_settle, hwire, hends.length_leases]
    exact .retry he hverdict

/-- What is done for a request that is given to a client. -/
inductive Submitted (s : Service) (request : Request) : Service → Prop
  | gone (hpool : s.hasPool = false) :
    Submitted s request (s.push ⟨request, .finished 0 (.error .poolClosed)⟩)
  | rejected (reason : String) :
    Submitted s request (s.push ⟨request, .finished 0 (.error (.invalidRequest reason))⟩)
  | begun (hpool : s.hasPool = true) {route : Route} {wire : WireRequest}
    (hprep : request.prepare s.settings.request.expectContinue route = .ok wire) :
    Submitted s request ((s.inPool (.start route s.settings.request.leaseTimeout)).push
      ⟨request, .leasing ⟨route, 1, s.pool.leases.length⟩⟩)

/-- Giving a request to a service rejects it or begins its first attempt. -/
theorem submitted (s : Service) (request : Request) :
    s.Submitted request (s.happen (.event (.submit request))) := by
  show s.Submitted request (s.submit request)
  unfold submit
  cases hpool : s.hasPool with
  | false => exact .gone hpool
  | true =>
    cases hroute : Route.ofUri request.uri with
    | error error =>
      obtain ⟨reason, rfl⟩ := Route.exists_of_ofUri_error hroute
      exact .rejected reason
    | ok route =>
      cases hprep : request.prepare s.settings.request.expectContinue route with
      | error error =>
        obtain ⟨reason, rfl⟩ := Request.exists_of_prepare_error hprep
        simp only [begin, hprep]
        exact .rejected reason
      | ok wire =>
        simp only [begin, hprep]
        exact .begun hpool hprep

/-- Giving a request to a service is a turn of it. -/
theorem turn_submit (request : Request) :
    Turn s (.event (.submit request)) (s.happen (.event (.submit request))) := by
  have hsubmitted := s.submitted request
  generalize s.happen (.event (.submit request)) = t at hsubmitted ⊢
  cases hsubmitted with
  | gone => exact .reject rfl request .poolClosed
  | rejected reason => exact .reject rfl request (.invalidRequest reason)
  | begun _ hprep => exact .accept rfl hprep

/-- A happening that ends no attempt is a turn of the service. -/
theorem turn_of_none (he : s.ending? x = none) : Turn s x (s.happen x) := by
  have hquiet : Turn s x s := .outside he (.stay x) s.owned
  cases x with
  | aside a => exact .outside he (.aside a) s.owned
  | event e =>
    cases e with
    | submit request => exact turn_submit request
    | proceed i =>
      -- only a lease that gets a connection changes anything without ending the attempt
      simp only [happen, step]
      split
      case h_2 => exact hquiet
      case h_1 call hi =>
        unfold proceed
        split
        case h_2 => exact hquiet
        case h_1 a hstage =>
          split
          case h_1 houtcome =>
            obtain ⟨phase, hphase, hok⟩ := Option.bind_eq_some_iff.1 houtcome
            obtain ⟨held, rfl⟩ := held_of_leaseOutcome hok
            exact .exchange he hi (.inl ⟨hstage, held, hphase⟩) _
          case h_2 error houtcome => simp [ending?, hi, hstage, houtcome] at he
          case h_3 => exact hquiet
    | arrive i arrival =>
      simp only [happen, step]
      split
      case h_2 => exact hquiet
      case h_1 call hi =>
        unfold arrive
        split
        case h_2 => exact hquiet
        case h_1 a reading hstage =>
          split
          case h_1 next hnext => exact .exchange he hi (.inr ⟨reading, hstage⟩) next
          case h_2 response hcomplete => simp [ending?, hi, hstage, hcomplete] at he
          case h_3 failure hfailed => simp [ending?, hi, hstage, hfailed] at he
    | overdue i =>
      simp only [happen, step]
      split
      case h_2 => exact hquiet
      case h_1 call hi =>
        unfold overdue
        split
        case h_2 => exact hquiet
        case h_1 a reading hstage =>
          split
          case isTrue hlate => simp [ending?, hi, hstage, hlate] at he
          case isFalse => exact hquiet
    | cancel i =>
      simp only [happen, step]
      split
      case h_2 => exact hquiet
      case h_1 call hi =>
        unfold cancel
        split
        case h_1 a ha => exact .cancel he hi ha
        case h_2 => exact hquiet
    | abandon shutdown =>
      simp only [happen, step]
      split
      case isTrue h =>
        subst h
        exact .outside he .shutdown false
      case isFalse => exact .outside he (.stay _) false
    | pool e =>
      simp only [happen, step]
      split
      case isTrue => exact hquiet
      case isFalse h => exact .outside he (.event e (by simpa using h)) s.owned

/-- Every happening is one of the turns. -/
theorem turn (hprep : s.Prepared) (x : Happening) : Turn s x (s.happen x) := by
  cases he : s.ending? x with
  | some e => exact turn_of_ends hprep he
  | none => exact turn_of_none he

/-! ## What becomes of the pool -/

/-- What a happening does to the pool is one act, the shutdown, or the work of calls with their
leases. -/
inductive Drives (p : System) (x : Happening) : System → Prop
  | act (act : Act) (h : x = .ofAct act) : Drives p x (p.act act)
  | shutdown (h : x = .event (.abandon true)) : Drives p x (p.act (.event .shutdown))
  | calls (events : List Pool.Event) (h : ∀ e ∈ events, e.isOfCall = true) :
    Drives p x (p.run events)

/-- Settling a lease is the step of the pool that its handling names, if any. -/
theorem pool_settle : (s.settle e).pool = s.pool.run e.handling.toList := by
  unfold settle
  cases e.handling <;> rfl

/-- An event by which a lease is given up is the work of a call. -/
theorem isOfCall_of_yields {event : Pool.Event} {l : LeaseId} (h : event.yields? = some l) :
    event.isOfCall = true := by
  cases event with
  | cancel | drop | release => rfl
  | start | claim | ready | unready | connected | refused | broadcast | broadcastRemoval | resume
  | expire | closed | tick | closeExpired | closeIdle | shutdown => cases h

/-- A turn drives the pool in one of its ways. -/
theorem Turn.drives (h : Turn s x t) : Drives s.pool x t.pool := by
  have hsettle (e : Ending) (he : s.ending? x = some e) :
      ∀ event ∈ e.handling.toList, event.isOfCall = true := fun event hevent =>
    isOfCall_of_yields ((ends_of_ending he).yields event (Option.mem_toList.1 hevent))
  cases h with
  | outside _ hp =>
    cases hp with
    | stay => exact .calls [] (by simp)
    | event event => exact .act (.event event) rfl
    | shutdown => exact .shutdown rfl
    | aside other => exact .act (.aside other) rfl
  | reject | exchange => exact .calls [] (by simp)
  | @accept _ request route =>
    exact .calls [.start route s.settings.request.leaseTimeout] (by simp [Pool.Event.isOfCall])
  | @finish e he => exact pool_settle (s := s) ▸ .calls _ (hsettle e he)
  | @retry e he =>
    have hrun : ((s.settle e).inPool (.start e.attempt.route s.settings.request.leaseTimeout)).pool =
        s.pool.run (e.handling.toList ++
          [.start e.attempt.route s.settings.request.leaseTimeout]) := by
      rw [pool_inPool, pool_settle, System.run, System.run, List.foldl_append]
      rfl
    rw [pool_setStage, hrun]
    refine .calls _ ?_
    intro event hevent
    rcases List.mem_append.1 hevent with hevent | hevent
    · exact hsettle e he event hevent
    · rw [List.mem_singleton.1 hevent]
      rfl
  | @cancel _ i call a =>
    exact .calls [.cancel a.lease, .drop a.lease] (by simp [Pool.Event.isOfCall])

/-- What every turn keeps of the pool: what all of its events keep, with the aside if there is one. A
lease expires only when it is said to. -/
theorem Turn.pool_induction (h : Turn s x t) {P : System → Prop} (hs : P s.pool)
    (hevent : ∀ p e, (∀ l, e = .expire l → x = .event (.pool e)) → P p → P (p.step e))
    (haside : ∀ a, x = .aside a → P (s.pool.aside a)) : P t.pool := by
  have hdrives := h.drives
  generalize t.pool = q at hdrives
  cases hdrives with
  | shutdown => exact hevent s.pool .shutdown nofun hs
  | act act hx =>
    cases act with
    | event e => exact hevent s.pool e (fun _ _ => hx) hs
    | aside a => exact haside a hx
  | calls events hcalls =>
    refine List.foldlRecOn events System.step hs ?_
    intro p hp e he
    apply hevent p e ?_ hp
    -- what a call does with its lease is no expiry
    rintro l rfl
    exact absurd (hcalls _ he) Bool.false_ne_true

/-- What the clients do to the pool is a run of the pool. -/
theorem Turn.reaches (h : Turn s x t) : System.Reaches s.pool t.pool :=
  h.pool_induction .refl (fun p e _ hp => hp.trans (System.reaches_step p e))
    fun a _ => System.reaches_aside s.pool a

/-- A turn changes no setting. -/
theorem Turn.settings (h : Turn s x t) : t.settings = s.settings := by
  cases h with
  | outside | reject | accept | exchange | cancel => rfl
  | finish | retry => exact settings_settle

end Service
end Client
end PooledHttp
