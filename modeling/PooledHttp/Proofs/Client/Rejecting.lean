import PooledHttp.Proofs.Client.Retrying
import PooledHttp.Proofs.Client.Shutdown
import PooledHttp.Simulation.Step

/-!
# Requests that are rejected

Whether a request is valid is looked at when it is given to a client, before anything is asked of the
pool: the URL has to have a route, and the request has to be one that can be prepared for it. Later
attempts prepare the same request for the same route, and what an attempt comes to is never an invalid
request (`Service.outcome_ne_invalid`). So a call that comes to an invalid request has never had an
attempt, and all that has happened is that the call was entered.

A call that is made when the pool is closed has one attempt at most. Its lease finds the pool closed
(`Service.Dismissed`), and neither the call nor its lease changes anything in the books until then.
-/

set_option autoImplicit false

namespace PooledHttp

/-! ## A lease outside a closed pool -/

namespace Pool

/-- A lease that is going to be refused is outside the pool. -/
theorem Phase.isOutside_of_isRefused {p : Phase} (h : p.isRefused = true) : p.isOutside = true := by
  unfold isRefused at h
  split at h
  · rfl
  · rfl
  · cases h

/-- Such a lease is over as soon as it claims a place. -/
theorem Phase.leaving_of_isRefused {p : Phase} (h : p.isRefused = true) : p.Leaving 1 := by
  unfold isRefused at h
  split at h
  · exact .claiming 0
  · exact .closed 1
  · cases h

/-- A lease that has left after a refusal has found the pool closed. -/
theorem Phase.Leaving.eq_of_isRefused {p : Phase} (h : p.Leaving 0) (hrefused : p.isRefused = true) :
    p = .ended .poolClosed := by
  cases h with
  | closed => rfl
  | cancelled => cases hrefused

namespace System

variable {s : System} {l : LeaseId} {lease : Lease}

/-- Between the two states, the lease has at most come into another phase without a place; all else
is as it was. -/
def Apart (l : LeaseId) (s t : System) : Prop :=
  t = s ∨ ∃ next, next.isOutside = true ∧ t = s.setPhase l next

/-- Of two phases that are set, the second one counts. -/
@[simp]
theorem setPhase_setPhase (p q : Phase) : (s.setPhase l p).setPhase l q = s.setPhase l q := by
  simp [setPhase, List.modify_modify_eq, Function.comp_def]

/-- Setting the phase that a lease is in changes nothing. -/
theorem setPhase_self (hl : s.leases[l]? = some lease) : s.setPhase l lease.phase = s := by
  have hleases := leases_setPhase_self hl
  cases s
  simp only [setPhase] at hleases ⊢
  rw [hleases]

/-- A lease that has no place in a closed pool and does not wait for one changes nothing but its own
phase. -/
theorem step_of_outside (hclosed : s.books.closed = true) (hl : s.leases[l]? = some lease)
    (hout : lease.phase.isOutside = true) {e : Event} (he : e.lease? = some l) :
    ∃ next, s.step e = s.setPhase l next ∧ next.isOutside = true := by
  have hsame : ∃ next, s = s.setPhase l next ∧ next.isOutside = true :=
    ⟨lease.phase, (setPhase_self hl).symm, hout⟩
  rw [step_of_lease he hl]
  cases hphase : lease.phase with
  | claiming =>
    cases e with
    | claim _ failing =>
      rw [stepLease, if_pos hphase, System.claim, if_pos hclosed]
      exact ⟨_, rfl, rfl⟩
    | cancel =>
      simp only [stepLease, System.cancel, hphase]
      exact ⟨_, rfl, rfl⟩
    | ready | unready | connected | refused | resume | expire | release | drop =>
      simpa [stepLease, hphase] using hsame
    | start | broadcast | broadcastRemoval | closed | tick | closeExpired | closeIdle | shutdown =>
      cases he
  | ended how =>
    cases e with
    | claim | ready | unready | connected | refused | resume | expire | cancel | release | drop =>
      simpa [stepLease, System.cancel, hphase] using hsame
    | start | broadcast | broadcastRemoval | closed | tick | closeExpired | closeIdle | shutdown =>
      cases he
  | readying | connecting | parked | held =>
    rw [hphase] at hout
    cases hout

end System
end Pool

namespace Client

open Pool

/-- Whether the call has come to an invalid request. -/
def Stage.isInvalid : Stage → Bool
  | .finished _ (.error (.invalidRequest _)) => true
  | _ => false

/-- The lease that a happening is about. -/
def Happening.lease? : Happening → Option LeaseId
  | .event (.pool e) => e.lease?
  | .aside (.wakeEarly l) | .aside (.expireWoken l) => some l
  | _ => none

namespace Service

/-- The happening is a step of the call, or of the lease that it works with. -/
def IsStepOf (s : Service) (i : CallId) (x : Happening) : Prop :=
  x.call? = some i ∨ ∃ a, s.attempt? i = some a ∧ x.lease? = some a.lease

/-- Where a call can stand that was made when the pool was closed; `l` is the lease that it has asked
for, if any. -/
inductive ShutOut (s : Service) (l : LeaseId) : Stage → Prop
  | rejected (reason : String) : ShutOut s l (.finished 0 (.error (.invalidRequest reason)))
  | gone : ShutOut s l (.finished 0 (.error .poolClosed))
  /-- The lease of its only attempt has not found out yet that the pool is closed, or just has. -/
  | leasing {a : Attempt} (hnumber : a.number = 1) (hlease : a.lease = l) {phase : Phase}
    (hphase : s.pool.phase? l = some phase) (hrefused : phase.isRefused = true) :
    ShutOut s l (.leasing a)
  | refused : ShutOut s l (.finished 1 (.error .poolClosed))
  | cancelled : ShutOut s l .cancelled

variable {s t : Service} {x : Happening} {i : CallId} {call : Call} {b : Attempt} {e : Ending}
  {pool : PoolSettings} {reason : String} {l : LeaseId} {lease : Lease}

/-! ## Invalid requests -/

/-- No attempt comes to an invalid request. -/
theorem outcome_ne_invalid (he : s.ending? x = some e) :
    e.outcome ≠ .error (.invalidRequest reason) := by
  cases ends_of_ending he with
  | noLease _ _ houtcome =>
    rintro herror
    obtain rfl := Except.error.inj herror
    obtain ⟨phase, -, houtcome⟩ := Option.bind_eq_some_iff.1 houtcome
    unfold leaseOutcome? at houtcome
    split at houtcome <;> cases houtcome
  | answered => exact nofun
  | broken | late => exact nofun

/-- A request without a route is rejected, and nothing else happens. -/
theorem submit_of_no_route {request : Request} {error : ClientError} (hpool : s.hasPool = true)
    (hroute : Route.ofUri request.uri = .error error) :
    s.happen (.event (.submit request)) = s.push ⟨request, .finished 0 (.error error)⟩ := by
  simp [happen, step, submit, hpool, hroute, push]

/-- A call that has not come to an invalid request at once never does. -/
theorem InRun.not_invalid_after (h : s.InRun pool) (hi : s.calls[i]? = some call)
    (hvalid : call.stage.isInvalid = false) (xs : List Happening) :
    ∃ next, (s.after xs).calls[i]? = some next ∧ next.stage.isInvalid = false := by
  induction xs generalizing s call with
  | nil => exact ⟨call, hi, hvalid⟩
  | cons x xs ih =>
    obtain ⟨next, hnext, hcourse⟩ := (h.turn_happen x).course hi
    refine ih (h.happen x) hnext ?_
    cases hcourse with
    | stay => exact hvalid
    | exchange | retry | cancel => rfl
    | @finish e he hcall result hverdict =>
      obtain rfl := RetryPolicy.eq_of_verdict hverdict
      cases houtcome : e.outcome with
      | ok => rfl
      | error error =>
        cases error with
        | invalidRequest reason => exact absurd houtcome (outcome_ne_invalid he)
        | transport | poolClosed | config => rfl

/-- A call that is over takes no steps. -/
theorem happen_of_over (hi : s.calls[i]? = some call) (hover : call.stage.attempt? = none)
    (hx : s.IsStepOf i x) : s.happen x = s := by
  rcases hx with hcall | ⟨a, ha, -⟩
  · cases hstage : call.stage with
    | leasing | exchanging =>
      rw [hstage] at hover
      cases hover
    | finished | cancelled =>
      unfold Happening.call? at hcall
      split at hcall
      case h_5 | h_6 | h_7 | h_8 => cases hcall
      all_goals
        obtain rfl := Option.some.inj hcall
        simp [happen, step, hi, proceed, arrive, overdue, cancel, hstage, Stage.attempt?]
  · rw [attempt?_of_call hi, hover] at ha
    cases ha

/-! ## Calls that are made when the pool is closed -/

/-- A call that is dismissed in its first attempt is shut out. -/
theorem Dismissed.shutOut {stage : Stage} (hd : Dismissed s b stage) (hnumber : b.number = 1) :
    ShutOut s b.lease stage := by
  cases hd with
  | leasing hphase hrefused => exact .leasing hnumber rfl hphase hrefused
  | refused => exact hnumber ▸ .refused
  | cancelled => exact .cancelled

/-- A call that goes on to find out what has become of such a lease leaves the pool alone. -/
theorem pool_proceed_of_refused (hi : s.calls[i]? = some call) (hstage : call.stage = .leasing b)
    {phase : Phase} (hphase : s.pool.phase? b.lease = some phase)
    (hrefused : phase.isRefused = true) : (s.happen (.event (.proceed i))).pool = s.pool := by
  unfold Phase.isRefused at hrefused
  split at hrefused
  case h_1 => simp [happen, step, hi, proceed, hstage, hphase, leaseOutcome?]
  case h_2 =>
    have hends : s.Ends (.event (.proceed i)) ⟨i, call.request, b, none, .error .poolClosed⟩ :=
      .noLease hi hstage (by rw [hphase]; rfl)
    rw [happen_of_ends hends]
    rfl
  case h_3 => cases hrefused

/-- The steps of a lease that has no place in a closed pool change nothing but its phase. -/
theorem apart_of_lease (hclosed : s.pool.books.closed = true)
    (hl : s.pool.leases[l]? = some lease) (hout : lease.phase.isOutside = true)
    (hlease : x.lease? = some l) : System.Apart l s.pool (s.happen x).pool := by
  have hnot (parked : Bool) : lease.phase ≠ .parked parked := by
    rintro heq
    rw [heq] at hout
    cases hout
  unfold Happening.lease? at hlease
  split at hlease
  case h_4 => cases hlease
  case h_1 e =>
    simp only [happen, step]
    split
    case isTrue => exact .inl rfl
    case isFalse =>
      obtain ⟨next, hnext, hstill⟩ := System.step_of_outside hclosed hl hout hlease
      exact .inr ⟨next, hstill, hnext⟩
  case h_2 m =>
    obtain rfl := Option.some.inj hlease
    exact .inl (if_neg (by simp [System.phase?_of_lease hl, hnot]))
  case h_3 m =>
    obtain rfl := Option.some.inj hlease
    exact .inl (by simp [happen, System.aside, hl, hnot])

/-- So do the steps of a call that waits for it. -/
theorem apart_of_call (hclosed : s.pool.books.closed = true) (hi : s.calls[i]? = some call)
    (hstage : call.stage = .leasing b) (hl : s.pool.leases[b.lease]? = some lease)
    (hrefused : lease.phase.isRefused = true) (hcall : x.call? = some i) :
    System.Apart b.lease s.pool (s.happen x).pool := by
  unfold Happening.call? at hcall
  split at hcall
  case h_5 | h_6 | h_7 | h_8 => cases hcall
  all_goals obtain rfl := Option.some.inj hcall
  case h_1 =>
    exact .inl (pool_proceed_of_refused hi hstage (System.phase?_of_lease hl) hrefused)
  case h_2 | h_3 => exact .inl (by simp [happen, step, hi, arrive, overdue, hstage])
  case h_4 =>
    -- the lease is cancelled, and then there is no connection to give up
    obtain ⟨p, hp, hpout⟩ := System.step_of_outside hclosed hl
      (Phase.isOutside_of_isRefused hrefused) (e := .cancel b.lease) rfl
    obtain ⟨q, hq, hqout⟩ := System.step_of_outside (s := s.pool.setPhase b.lease p) hclosed
      (System.getElem?_setPhase hl p) hpout (e := .drop b.lease) rfl
    refine .inr ⟨q, hqout, ?_⟩
    simp [happen, step, hi, cancel, hstage, Stage.attempt?, hp, hq]

/-- The steps of a call that is dismissed leave all of the pool but its lease alone. -/
theorem apart_of_dismissed (hclosed : s.pool.books.closed = true)
    (hi : s.calls[i]? = some call) (hd : Dismissed s b call.stage) (hx : s.IsStepOf i x) :
    System.Apart b.lease s.pool (s.happen x).pool := by
  generalize hstage : call.stage = stage at hd
  cases hd with
  | refused | cancelled => exact .inl (by rw [happen_of_over hi (by rw [hstage]; rfl) hx])
  | leasing hphase hrefused =>
    obtain ⟨lease, hl, rfl⟩ := Option.map_eq_some_iff.1 hphase
    rcases hx with hcall | ⟨a, ha, hlease⟩
    · exact apart_of_call hclosed hi hstage hl hrefused hcall
    · have hunderWay : s.attempt? i = some b := by rw [attempt?_of_call hi, hstage, Stage.attempt?]
      obtain rfl := Option.some.inj (hunderWay.symm.trans ha)
      exact apart_of_lease hclosed hl (Phase.isOutside_of_isRefused hrefused) hlease

/-- When the lease of such an attempt has claimed a place, it has found the pool closed, or the call is
over. -/
theorem InRun.refused_of_claim (h : s.InRun pool) (hclosed : s.pool.books.closed = true)
    (hi : s.calls[i]? = some call) (hd : Dismissed s b call.stage) {xs : List Happening}
    {failing : List ConnId} (hclaim : .event (.pool (.claim b.lease failing)) ∈ xs) :
    ∃ next, (s.after xs).calls[i]? = some next ∧ (next.stage.attempt? = none ∨
      next.stage = .leasing b ∧ (s.after xs).pool.phase? b.lease = some (.ended .poolClosed)) := by
  obtain ⟨next, hnext, hstands⟩ := h.dismissed_after hclosed hi hd xs
  refine ⟨next, hnext, ?_⟩
  generalize hstage : call.stage = stage at hd
  generalize hnextStage : next.stage = stage' at hstands ⊢
  cases hstands with
  | refused | cancelled => exact .inl rfl
  | leasing hstill hrefused' =>
    refine .inr ⟨rfl, ?_⟩
    cases hd with
    | refused | cancelled =>
      -- a call that is over does not get an attempt again
      rw [(h.over hi (by rw [hstage]; rfl) xs).1] at hnext
      obtain rfl := Option.some.inj hnext
      rw [hstage] at hnextStage
      cases hnextStage
    | leasing hphase hrefused =>
      have hclaims : (stepsOf b.lease failing 1).Sublist xs := List.singleton_sublist.2 hclaim
      obtain ⟨phase, hphase', hleaving⟩ := h.ended_after hclosed (Nat.le_add_left 1 2)
        (fun _ => Nat.le_succ 1) (fun _ => le_rfl) hphase (Phase.leaving_of_isRefused hrefused)
        hclaims
      obtain rfl := Option.some.inj (hphase'.symm.trans hstill)
      rw [hphase', hleaving.eq_of_isRefused hrefused']

/-- When the lease of such an attempt has claimed a place and the call has gone on after that, the call
is over, whatever happens in between. -/
theorem InRun.over_of_dismissed (h : s.InRun pool) (hclosed : s.pool.books.closed = true)
    (hi : s.calls[i]? = some call) (hd : Dismissed s b call.stage) {xs : List Happening}
    {failing : List ConnId}
    (hsteps : [.event (.pool (.claim b.lease failing)), .event (.proceed i)].Sublist xs) :
    (s.after xs).attempt? i = none := by
  obtain ⟨before, rest, rfl, hclaim, hproceed⟩ := List.cons_sublist_iff.1 hsteps
  obtain ⟨between, later, rfl⟩ := List.append_of_mem (List.singleton_sublist.1 hproceed)
  have hparts : s.after (before ++ (between ++ .event (.proceed i) :: later)) =
      ((s.after (before ++ between)).happen (.event (.proceed i))).after later := by
    simp [Service.after]
  have hrun := h.after (before ++ between)
  obtain ⟨next, hnext, hfound⟩ := h.refused_of_claim hclosed hi hd
    (List.mem_append_left between hclaim)
  suffices hover : ∃ last, ((s.after (before ++ between)).happen
      (.event (.proceed i))).calls[i]? = some last ∧ last.stage.attempt? = none by
    obtain ⟨last, hlast, hnone⟩ := hover
    rw [hparts, attempt?_of_call ((hrun.happen _).over hlast hnone later).1, hnone]
  rcases hfound with hnone | ⟨hstage, hphase⟩
  · exact ⟨next, (hrun.over hnext hnone [.event (.proceed i)]).1, hnone⟩
  · exact ⟨_, proceed_of_poolClosed hnext hstage hphase, rfl⟩

/-! ## All of it -/

/-- What holds when a call has come to an invalid request after `n` attempts. Giving the request to a
client in the state `s` has made the state `t`, and `later` has happened since. -/
structure Rejected (s t : Service) (request : Request) (n : Nat) (reason : String)
    (later : List Happening) : Prop where
  noAttempt : n = 0 ∧ t.outcomes s.calls.length later = []
  /-- The call has been entered with its result, and all else is as it was. -/
  entered : t = s.push ⟨request, .finished 0 (.error (.invalidRequest reason))⟩
  still : ∀ x, (t.after later).IsStepOf s.calls.length x → (t.after later).happen x = t.after later

/-- What holds when giving a request to a client in the state `s` has made the state `t`, but it was too
late for it. -/
structure TooLate (s t : Service) : Prop where
  /-- The call may have asked for a lease; all else in the pool is as it was. -/
  entered : t.pool = { s.pool with leases := t.pool.leases } ∧ s.pool.leases <+: t.pool.leases
  /-- The call has no result but that it is invalid or that the pool is closed, and it is never
  answered. -/
  shutOut : ∀ later, ∃ call, (t.after later).calls[s.calls.length]? = some call ∧
    ShutOut (t.after later) s.pool.leases.length call.stage
  apart : ∀ later x, (t.after later).IsStepOf s.calls.length x →
    System.Apart s.pool.leases.length (t.after later).pool ((t.after later).happen x).pool
  /-- When its lease has claimed a place and the call has gone on after that, the call is over. -/
  concludes : ∀ later failing, [.event (.pool (.claim s.pool.leases.length failing)),
    .event (.proceed s.calls.length)].Sublist later →
      (t.after later).attempt? s.calls.length = none

/-- A call that has come to an invalid request was over as soon as it was made. -/
theorem InRun.rejected (h : s.InRun pool) (request : Request) {later : List Happening} {n : Nat}
    (hi : ((s.happen (.event (.submit request))).after later).calls[s.calls.length]? = some call)
    (hstage : call.stage = .finished n (.error (.invalidRequest reason))) :
    Rejected s (s.happen (.event (.submit request))) request n reason later := by
  have ht := h.happen (.event (.submit request))
  have hsubmitted := s.submitted request
  generalize s.happen (.event (.submit request)) = t at hi ht hsubmitted ⊢
  cases hsubmitted with
  | gone =>
    have hover := (ht.over (getElem?_push_self s _) rfl later).1
    obtain rfl := Option.some.inj (hi.symm.trans hover)
    cases hstage
  | rejected reason' =>
    obtain ⟨hover, hnone⟩ := ht.over (getElem?_push_self s _) rfl later
    obtain rfl := Option.some.inj (hi.symm.trans hover)
    obtain ⟨rfl, rfl⟩ : 0 = n ∧ reason' = reason := by simpa using hstage
    exact ⟨⟨rfl, hnone⟩, rfl, fun x hx => happen_of_over hover rfl hx⟩
  | begun =>
    obtain ⟨next, hnext, hvalid⟩ := ht.not_invalid_after (getElem?_push_self s _) rfl later
    obtain rfl := Option.some.inj (hi.symm.trans hnext)
    rw [hstage] at hvalid
    cases hvalid

/-- A call that is over when it is made leaves the pool alone. -/
theorem InRun.tooLate_of_over (h : (s.push call).InRun pool) (hover : call.stage.attempt? = none)
    (hout : ∀ t, ShutOut t s.pool.leases.length call.stage) : TooLate s (s.push call) where
  entered := ⟨rfl, List.prefix_rfl⟩
  shutOut later := ⟨call, (h.over (getElem?_push_self s call) hover later).1, hout _⟩
  apart later x hx :=
    .inl (by rw [happen_of_over (h.over (getElem?_push_self s call) hover later).1 hover hx])
  concludes later _ _ := by
    rw [attempt?_of_call (h.over (getElem?_push_self s call) hover later).1, hover]

/-- So does a call whose first attempt is to find the pool closed. -/
theorem InRun.tooLate_of_dismissed (h : t.InRun pool) (hclosed : t.pool.books.closed = true)
    (hpool : t.pool = { s.pool with leases := t.pool.leases } ∧ s.pool.leases <+: t.pool.leases)
    (hi : t.calls[s.calls.length]? = some call) (hd : Dismissed t b call.stage)
    (hnumber : b.number = 1) (hlease : b.lease = s.pool.leases.length) : TooLate s t := by
  refine ⟨hpool, fun later => ?_, fun later x hx => ?_, fun later failing hsteps => ?_⟩
  · obtain ⟨next, hnext, hstands⟩ := h.dismissed_after hclosed hi hd later
    exact ⟨next, hnext, hlease ▸ hstands.shutOut hnumber⟩
  · obtain ⟨next, hnext, hstands⟩ := h.dismissed_after hclosed hi hd later
    have hstill := (h.reachable.waning hclosed (h.reaches later)).closed
    exact hlease ▸ apart_of_dismissed hstill hnext hstands hx
  · exact h.over_of_dismissed hclosed hi hd (hlease ▸ hsteps)

/-- A request that is given to a client whose pool is closed or gone is too late. -/
theorem InRun.tooLate (h : s.InRun pool) (hlate : s.pool.books.closed = true ∨ s.hasPool = false)
    (request : Request) : TooLate s (s.happen (.event (.submit request))) := by
  have ht := h.happen (.event (.submit request))
  have hsubmitted := s.submitted request
  generalize s.happen (.event (.submit request)) = t at ht hsubmitted ⊢
  cases hsubmitted with
  | gone => exact ht.tooLate_of_over rfl fun _ => .gone
  | rejected reason => exact ht.tooLate_of_over rfl fun _ => .rejected reason
  | @begun hpool route =>
    have hclosed := hlate.resolve_right (by simp [hpool])
    -- the lease of the attempt has not claimed a place yet
    have hphase : (s.pool.step (.start route s.settings.request.leaseTimeout)).phase?
        s.pool.leases.length = some .claiming := by
      rw [System.phase?, System.step, List.getElem?_concat_length, Option.map_some]
    exact ht.tooLate_of_dismissed (b := ⟨route, 1, s.pool.leases.length⟩) hclosed
      ⟨rfl, List.prefix_append _ _⟩ (getElem?_push_self _ _) (.leasing hphase rfl) rfl rfl

/-- A pool that has been shut down stays closed. -/
theorem closed_of_shutdown (settings : Settings) (pool : PoolSettings) {before : List Happening}
    {stop : Happening} (hstop : stop = .event (.pool .shutdown) ∨ stop = .event (.abandon true))
    (hmem : stop ∈ before) : ((init settings pool).after before).pool.books.closed = true := by
  obtain ⟨earlier, more, rfl⟩ := List.append_of_mem hmem
  have hrun := ((inRun_init settings pool).after earlier).happen stop
  have hstill := hrun.reachable.waning (happen_shutdown hstop).1 (hrun.reaches more)
  simpa [Service.after] using hstill.closed

/-- Let a request be given to a client at any point of any run of any pool.

When the call comes to an invalid request, it does so at once, and nothing has been done but to enter the
call; this goes for an expired connection that is idle, too. No attempt ever comes to an invalid request,
and none is made after one.

When the pool is closed already, which it is once it has been shut down, or when it is gone, the call
fails without an answer and changes nothing in the pool but the phase of its own lease.

A request that cannot be made from its parts does not even become a call. -/
theorem rejected_requests_touch_nothing (settings : Settings) (pool : PoolSettings)
    (before : List Happening) (request : Request) :
    let s := (init settings pool).after before
    let t := s.happen (.event (.submit request))
    (∀ later call n reason, (t.after later).calls[s.calls.length]? = some call →
      call.stage = .finished n (.error (.invalidRequest reason)) →
      Rejected s t request n reason later) ∧
    (∀ later x e reason, (t.after later).ending? x = some e →
      e.outcome ≠ .error (.invalidRequest reason)) ∧
    (s.pool.books.closed = true ∨ s.hasPool = false → TooLate s t) ∧
    (.event (.pool .shutdown) ∈ before ∨ .event (.abandon true) ∈ before →
      s.pool.books.closed = true) ∧
    ∀ (w : Simulation.World) (name : String) (client : Nat) (via : Simulation.Via)
      (written : Simulation.Written) (refusal : Simulation.Refusal),
      written.request via = .error refusal →
      ∃ done, (w.giveRequest name client via written).2 = { w with done := done } := by
  intro s t
  have hs : s.InRun pool := (inRun_init settings pool).after before
  refine ⟨fun later call n reason hi hstage => hs.rejected request hi hstage,
    fun later x e reason he => outcome_ne_invalid he, fun hlate => hs.tooLate hlate request,
    fun hstopped => ?_, ?_⟩
  · rcases hstopped with hmem | hmem
    · exact closed_of_shutdown settings pool (.inl rfl) hmem
    · exact closed_of_shutdown settings pool (.inr rfl) hmem
  · intro w name client via written refusal hrefusal
    unfold Simulation.World.giveRequest
    split
    case isTrue => exact ⟨w.done, rfl⟩
    case isFalse =>
      rw [hrefusal]
      exact ⟨_, rfl⟩

/-- The time for which a connection may be kept is over. A request without a scheme leaves it idle, where
any other request closes it. After the shutdown, such a request is turned away. A request without a URL
only gets into the report. -/
theorem rejected_requests_touch_nothing_expired :
    let settings : Settings := ⟨⟨true, none, none, none⟩, ⟨1⟩, .standard⟩
    let request : Request :=
      ⟨.get, ⟨some ['h', 't', 't', 'p'], some ['h'], ['/'], none⟩, .http11, ⟨[]⟩, []⟩
    let invalid : Request := ⟨.get, ⟨none, some ['h'], ['/'], none⟩, .http11, ⟨[]⟩, []⟩
    let before : List Happening :=
      [.event (.submit request), .event (.pool (.claim 0 [])), .event (.pool (.connected 0)),
        .event (.proceed 0), .event (.arrive 0 (.head ⟨200, ⟨[]⟩⟩)), .event (.arrive 0 .finished),
        .event (.pool (.tick KeepAlive.standardTime))]
    let s := (init settings ⟨1, 1, .standard⟩).after before
    let closed := (init settings ⟨1, 1, .standard⟩).after (before ++ [.event (.abandon true)])
    let w : Simulation.World := .init s true 1 [] []
    s.pool.IdleAt 0 ⟨.http, ['h'], 80⟩ 0 ∧
      (∃ reason, Rejected s (s.happen (.event (.submit invalid))) invalid 0 reason []) ∧
      (s.after [.event (.submit request), .event (.pool (.claim 1 []))]).pool.owns 0 = false ∧
      TooLate closed (closed.happen (.event (.submit request))) ∧
      ∃ done, (w.giveRequest "q" 0 (.bare .get) ⟨[], [], [], []⟩).2 = { w with done := done } := by
  intro settings request invalid before s closed w
  have hclaims : ((s.after [.event (.submit request), .event (.pool (.claim 1 []))]).pool.owns 0) =
      false := by decide
  have hall := rejected_requests_touch_nothing settings ⟨1, 1, .standard⟩
  refine ⟨by rw [System.IdleAt]; decide, ?_, hclaims, ?_, ?_⟩
  · obtain ⟨error, hroute⟩ : ∃ error, Route.ofUri invalid.uri = .error error := ⟨_, rfl⟩
    obtain ⟨reason, rfl⟩ := Route.exists_of_ofUri_error hroute
    have hpool : s.hasPool = true := by decide
    have hsubmit := submit_of_no_route hpool hroute
    have hcall : ((s.happen (.event (.submit invalid))).after []).calls[s.calls.length]? =
        some ⟨invalid, .finished 0 (.error (.invalidRequest reason))⟩ := by
      rw [after, List.foldl_nil, hsubmit, getElem?_push_self]
    obtain ⟨hrejected, -⟩ := hall before invalid
    exact ⟨reason, hrejected [] _ 0 reason hcall rfl⟩
  · obtain ⟨-, -, htooLate, hclosed, -⟩ := hall (before ++ [.event (.abandon true)]) request
    exact htooLate (.inl (hclosed (.inr (by simp))))
  · obtain ⟨-, -, -, -, hreported⟩ := hall before invalid
    exact hreported w _ _ _ _ (.client (.invalidRequest UriError.empty.message)) rfl

end Service
end Client
end PooledHttp
