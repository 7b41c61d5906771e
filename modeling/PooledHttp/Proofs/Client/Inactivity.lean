import PooledHttp.Proofs.Client.Holding
import PooledHttp.Proofs.Client.Reading
import PooledHttp.Proofs.Pool.Clock

/-!
# The time limit for reading a response

A call whose request has been sent waits for what arrives on its connection. `Service.Receives` is a
run in which given arrivals reach it, each at its time, while anything else may happen; as timers are
served when they are due, the clock passes neither the time of the next arrival nor the end of the
wait for it. In every such run the attempt comes to what `Reading.ComesTo` says, at the time it says.

What carries the induction is `Service.Awaits`: reading the arrivals that are still to come, from the
state that the reading has reached, comes to the same as reading all of them from the start.
-/

set_option autoImplicit false

namespace PooledHttp.Client

open Pool

namespace Service

variable {s t : Service} {x : Happening} {xs ys : List Happening} {i j : CallId} {call : Call}
  {a : Attempt} {r : Reading} {limit : Option Millis} {since now time : Millis}
  {arrival : Arrival} {delay : Millis} {arrivals rest : List (Millis × Arrival)}
  {result : Except ReadFailure Response}

/-! ## What leaves a call as it is -/

/-- Beginning an attempt changes no call that is there. -/
theorem calls_begin (request : Request) (route : Route) (number : Nat) :
    (s.begin request route number).2.calls = s.calls := by
  unfold begin
  split <;> rfl

/-- When an attempt of a call is concluded, the other calls stay as they are. -/
theorem getElem?_conclude_ne (hne : i ≠ j) (request : Request) (a : Attempt)
    (outcome : Except ClientError Response) :
    (s.conclude j request a outcome).calls[i]? = s.calls[i]? := by
  unfold conclude
  split
  · exact getElem?_setStage_ne hne _
  · exact (getElem?_setStage_ne hne _).trans (congrArg (·[i]?) (calls_begin ..))

/-- When a request is submitted, the calls that are there stay as they are. -/
theorem getElem?_submit (hi : s.calls[i]? = some call) (request : Request) :
    (s.submit request).calls[i]? = some call := by
  have hlt := (List.getElem?_eq_some_iff.1 hi).1
  unfold submit
  cases s.hasPool with
  | false => exact (List.getElem?_append_left hlt).trans hi
  | true =>
    cases Route.ofUri request.uri with
    | error => exact (List.getElem?_append_left hlt).trans hi
    | ok route =>
      rw [← calls_begin (s := s) request route 1] at hlt hi
      exact (List.getElem?_append_left hlt).trans hi

/-- When reading fails for a call, the other calls stay as they are. -/
theorem getElem?_fail_ne (hne : i ≠ j) (request : Request) (a : Attempt) (failure : ReadFailure) :
    (s.fail j request a failure).calls[i]? = s.calls[i]? :=
  getElem?_conclude_ne hne request a _

/-- When the response of a call is complete, the other calls stay as they are. -/
theorem getElem?_complete_ne (hne : i ≠ j) (request : Request) (a : Attempt) (response : Response) :
    (s.complete j request a response).calls[i]? = s.calls[i]? := by
  unfold complete
  exact getElem?_conclude_ne hne request a _

/-- What is not about a call does nothing to it. -/
theorem getElem?_happen (hx : x.call? ≠ some i) (hi : s.calls[i]? = some call) :
    (s.happen x).calls[i]? = some call := by
  cases x with
  | aside a => exact hi
  | event e =>
    -- whichever call the happening is about, it is another one
    have hother (j : CallId) (hj : (Happening.event e).call? = some j) : i ≠ j := by
      rintro rfl
      exact hx hj
    rw [← hi]
    cases e with
    | submit request => exact (getElem?_submit hi request).trans hi.symm
    | proceed j =>
      simp only [happen, step]
      split
      case h_2 => rfl
      case h_1 other hj =>
        unfold proceed
        split
        case h_2 => rfl
        case h_1 a hstage =>
          split
          case h_1 => exact getElem?_setStage_ne (hother j rfl) _
          case h_2 => exact getElem?_conclude_ne (hother j rfl) _ _ _
          case h_3 => rfl
    | arrive j arrival =>
      simp only [happen, step]
      split
      case h_2 => rfl
      case h_1 other hj =>
        unfold arrive
        split
        case h_2 => rfl
        case h_1 a reading hstage =>
          split
          case h_1 => exact getElem?_setStage_ne (hother j rfl) _
          case h_2 => exact getElem?_complete_ne (hother j rfl) _ _ _
          case h_3 => exact getElem?_fail_ne (hother j rfl) _ _ _
    | overdue j =>
      simp only [happen, step]
      split
      case h_2 => rfl
      case h_1 other hj =>
        unfold overdue
        split
        case h_2 => rfl
        case h_1 a reading hstage =>
          split
          case isTrue => exact getElem?_fail_ne (hother j rfl) _ _ _
          case isFalse => rfl
    | cancel j =>
      simp only [happen, step]
      split
      case h_2 => rfl
      case h_1 other hj =>
        unfold cancel
        split
        case h_1 => exact getElem?_setStage_ne (hother j rfl) _
        case h_2 => rfl
    | abandon shutdown =>
      simp only [happen, step]
      split <;> rfl
    | pool e =>
      simp only [happen, step]
      split <;> rfl

/-- Beginning an attempt takes no time. -/
theorem now_begin (request : Request) (route : Route) (number : Nat) :
    (s.begin request route number).2.pool.now = s.pool.now := by
  unfold begin
  split
  · rfl
  · exact System.now_step nofun

/-- Concluding an attempt takes no time. -/
theorem now_conclude (request : Request) (a : Attempt) (outcome : Except ClientError Response) :
    (s.conclude i request a outcome).pool.now = s.pool.now := by
  unfold conclude
  split
  · rfl
  · exact now_begin request a.route _

/-- The end of an attempt takes no time. -/
theorem now_happen_of_ending {e : Ending} (he : s.ending? x = some e) :
    (s.happen x).pool.now = s.pool.now := by
  have hends := ends_of_ending he
  have hsettle : (s.settle e).pool.now = s.pool.now := by
    unfold settle
    cases hhandling : e.handling with
    | none => rfl
    | some handling =>
      refine System.now_step ?_
      rintro time rfl
      cases hends.yields _ hhandling
  rw [happen_of_ends hends]
  exact (now_conclude e.request e.attempt e.outcome).trans hsettle

/-! ## Runs in which a response arrives -/

/-- The call waits in attempt `a` for what arrives, and `r` is what has arrived so far. -/
def Exchanges (s : Service) (i : CallId) (a : Attempt) (r : Reading) : Prop :=
  ∃ call, s.calls[i]? = some call ∧ call.stage = .exchanging a r

/-- The attempt in which a call waits is under way. -/
theorem Exchanges.attempt?_eq (h : s.Exchanges i a r) : s.attempt? i = some a := by
  obtain ⟨call, hi, hstage⟩ := h
  exact attempt?_eq_some.2 ⟨call, hi, by rw [hstage]; rfl⟩

/-- A run in which the arrivals reach the call in their order, each at its delay after the one before
it, and the first at its delay after time `since`. -/
inductive Receives (i : CallId) (limit : Option Millis) :
    Service → Millis → List (Millis × Arrival) → List Happening → Prop
  | stop {s : Service} {since : Millis} {arrivals : List (Millis × Arrival)} :
    Receives i limit s since arrivals []
  /-- The call has stopped waiting. -/
  | stopped {s : Service} {since : Millis} {arrivals : List (Millis × Arrival)} {xs : List Happening}
    (hnot : ∀ a r, ¬ s.Exchanges i a r) : Receives i limit s since arrivals xs
  | arrive {s : Service} {since delay : Millis} {arrival : Arrival}
    {rest : List (Millis × Arrival)} {xs : List Happening} (htime : s.pool.now = since + delay)
    (h : Receives i limit (s.happen (.event (.arrive i arrival))) s.pool.now rest xs) :
    Receives i limit s since ((delay, arrival) :: rest) (.event (.arrive i arrival) :: xs)
  /-- Anything else happens while the call is not given up. The clock passes neither the time of the
  next arrival nor the end of the wait for it. -/
  | other {s : Service} {since : Millis} {arrivals : List (Millis × Arrival)} {x : Happening}
    {xs : List Happening} (harrive : ∀ arrival, x ≠ .event (.arrive i arrival))
    (hcancel : x ≠ .event (.cancel i))
    (hlimit : ∀ t ∈ limit, (s.happen x).pool.now ≤ since + t)
    (hnext : ∀ p ∈ arrivals.head?, (s.happen x).pool.now ≤ since + p.1)
    (h : Receives i limit (s.happen x) since arrivals xs) :
    Receives i limit s since arrivals (x :: xs)

/-- In the run, the call waits in the attempt until it ends at this time, with this outcome. -/
inductive EndsAt (i : CallId) (a : Attempt) (outcome : Except ClientError Response)
    (time : Millis) : Service → List Happening → Prop
  | now {s : Service} {r : Reading} {x : Happening} {e : Ending} (hwaits : s.Exchanges i a r)
    (he : s.ending? x = some e) (hcall : e.call = i) (houtcome : e.outcome = outcome)
    (htime : s.pool.now = time) (xs : List Happening) : EndsAt i a outcome time s (x :: xs)
  | later {s : Service} {r : Reading} {x : Happening} {xs : List Happening}
    (hwaits : s.Exchanges i a r) (h : EndsAt i a outcome time (s.happen x) xs) :
    EndsAt i a outcome time s (x :: xs)

/-- What the result of reading a response is for the attempt. -/
def readOutcome (a : Attempt) (result : Except ReadFailure Response) :
    Except ClientError Response :=
  result.mapError fun failure => .transport (failure.toError a.route.name)

/-- The call waits for arrivals, and with them it will come to `result` at `time`. -/
structure Awaits (s : Service) (i : CallId) (a : Attempt) (r : Reading)
    (arrivals : List (Millis × Arrival)) (result : Except ReadFailure Response) (time : Millis) :
    Prop where
  exchanges : s.Exchanges i a r
  run : r.run arrivals = some (result, time)
  ties : ∀ p ∈ arrivals, r.limit ≠ some p.1
  notLate : ∀ t ∈ r.limit, s.pool.now ≤ r.since + t
  notPast : ∀ p ∈ arrivals.head?, s.pool.now ≤ r.since + p.1

/-- A happening ends the attempt with what the call has waited for. -/
def Concludes (s : Service) (i : CallId) (a : Attempt) (result : Except ReadFailure Response)
    (time : Millis) (x : Happening) : Prop :=
  ∃ e, s.ending? x = some e ∧ e.call = i ∧ e.outcome = readOutcome a result ∧ s.pool.now = time

/-- A happening that concludes the attempt with what the call has waited for ends it in the run. -/
theorem Awaits.endsAt (h : s.Awaits i a r arrivals result time) (hx : s.Concludes i a result time x)
    (xs : List Happening) : EndsAt i a (readOutcome a result) time s (x :: xs) := by
  obtain ⟨e, he, hcall, houtcome, htime⟩ := hx
  exact .now h.exchanges he hcall houtcome htime xs

/-! ## One happening -/

/-- A reading that goes on counts its limit, which is the same, from the arrival. -/
theorem receive_waiting {next : Reading} (h : r.receive now arrival = .waiting next) :
    next.since = now ∧ next.limit = r.limit := by
  cases arrival with
  | head | data | trailer =>
    obtain rfl := Reading.Progress.waiting.inj h
    exact ⟨rfl, rfl⟩
  | finished =>
    simp only [Reading.receive] at h
    split at h
    case h_1 => cases h
    case h_2 =>
      obtain rfl := Reading.Progress.waiting.inj h
      exact ⟨rfl, rfl⟩
  | fault => cases h

/-- The wait is over before anything arrives. -/
theorem Awaits.of_late (h : s.Awaits i a r arrivals result time) {t : Millis}
    (hlimit : r.limit = some t) (hlate : ∀ p ∈ arrivals.head?, t ≤ p.1) :
    result = .error .timedOut ∧ time = r.since + t := by
  have hrun := h.run
  cases arrivals with
  | nil =>
    simp only [Reading.run, Reading.deadline?, hlimit, Option.map_some, Option.some.injEq,
      Prod.mk.injEq] at hrun
    exact ⟨hrun.1.symm, hrun.2.symm⟩
  | cons p rest =>
    rw [Reading.run_late hlimit (hlate p rfl), Option.some.injEq, Prod.mk.injEq] at hrun
    exact ⟨hrun.1.symm, hrun.2.symm⟩

/-- The timer is served when it is due. -/
theorem Awaits.overdue (h : s.Awaits i a r arrivals result time) {t : Millis}
    (hlimit : r.limit = some t) (hnow : s.pool.now = r.since + t) :
    s.Concludes i a result time (.event (.overdue i)) := by
  obtain ⟨call, hi, hstage⟩ := h.exchanges
  have hlate (p : Millis × Arrival) (hp : p ∈ arrivals.head?) : t ≤ p.1 :=
    Nat.le_of_add_le_add_left (hnow ▸ h.notPast p hp)
  obtain ⟨rfl, rfl⟩ := h.of_late hlimit hlate
  have hdue : r.isOverdue s.pool.now = true := by
    simp [Reading.isOverdue, Reading.deadline?, hlimit, hnow]
  refine ⟨failing i call.request a .timedOut, ?_, rfl, rfl, hnow⟩
  simp [ending?, hi, hstage, hdue]

/-- Something arrives in time. -/
theorem Awaits.arrive (h : s.Awaits i a r ((delay, arrival) :: rest) result time)
    (hnow : s.pool.now = r.since + delay) :
    s.Concludes i a result time (.event (.arrive i arrival)) ∨
      ∃ next, (s.happen (.event (.arrive i arrival))).Awaits i a next rest result time ∧
        next.since = s.pool.now ∧ next.limit = r.limit := by
  obtain ⟨call, hi, hstage⟩ := h.exchanges
  -- an arrival at the very end of the wait is excluded, and the clock has not passed that end
  have hintime : Reading.InTime r.limit delay := by
    intro t ht
    have hle : delay ≤ t := Nat.le_of_add_le_add_left (hnow ▸ h.notLate t ht)
    refine lt_of_le_of_ne hle ?_
    rintro rfl
    exact h.ties (delay, arrival) List.mem_cons_self ht
  have hrun := h.run
  cases hreceive : r.receive s.pool.now arrival with
  | waiting next =>
    rw [Reading.run_of_waiting hintime (hnow ▸ hreceive)] at hrun
    obtain ⟨hsince, hlimit⟩ := receive_waiting hreceive
    have hhappen : s.happen (.event (.arrive i arrival)) = s.setStage i (.exchanging a next) := by
      simp [happen, step, hi, Service.arrive, hstage, hreceive]
    refine .inr ⟨next, ⟨?_, hrun, ?_, ?_, ?_⟩, hsince, hlimit⟩
    · exact hhappen ▸ ⟨_, getElem?_setStage_self hi _, rfl⟩
    · exact fun p hp => hlimit ▸ h.ties p (.tail _ hp)
    · intro t _
      rw [hhappen, hsince]
      exact Nat.le_add_right _ _
    · intro p _
      rw [hhappen, hsince]
      exact Nat.le_add_right _ _
  | complete response =>
    rw [Reading.run_of_complete hintime (hnow ▸ hreceive), ← hnow, Option.some.injEq,
      Prod.mk.injEq] at hrun
    obtain ⟨rfl, rfl⟩ := hrun
    refine .inl ⟨⟨i, call.request, a, some (s.handing a response), .ok response⟩, ?_, rfl, rfl, rfl⟩
    simp [ending?, hi, hstage, hreceive]
  | failed failure =>
    rw [Reading.run_of_failed hintime (hnow ▸ hreceive), ← hnow, Option.some.injEq,
      Prod.mk.injEq] at hrun
    obtain ⟨rfl, rfl⟩ := hrun
    refine .inl ⟨failing i call.request a failure, ?_, rfl, rfl, rfl⟩
    simp [ending?, hi, hstage, hreceive]

/-- Anything else leaves the call waiting, unless its timer is due. -/
theorem Awaits.other (h : s.Awaits i a r arrivals result time)
    (harrive : ∀ arrival, x ≠ .event (.arrive i arrival)) (hcancel : x ≠ .event (.cancel i))
    (hlimit : ∀ t ∈ r.limit, (s.happen x).pool.now ≤ r.since + t)
    (hnext : ∀ p ∈ arrivals.head?, (s.happen x).pool.now ≤ r.since + p.1) :
    s.Concludes i a result time x ∨ (s.happen x).Awaits i a r arrivals result time := by
  obtain ⟨call, hi, hstage⟩ := h.exchanges
  have hstays (hcall : (s.happen x).calls[i]? = some call) :
      (s.happen x).Awaits i a r arrivals result time :=
    ⟨⟨call, hcall, hstage⟩, h.run, h.ties, hlimit, hnext⟩
  by_cases hx : x.call? = some i
  · cases x with
    | aside => cases hx
    | event e =>
      cases e with
      | submit | abandon | pool => cases hx
      | proceed j =>
        obtain rfl := Option.some.inj hx
        refine .inr (hstays ?_)
        simp [happen, step, hi, proceed, hstage]
      | arrive j arrival =>
        obtain rfl := Option.some.inj hx
        exact absurd rfl (harrive arrival)
      | cancel j =>
        obtain rfl := Option.some.inj hx
        exact absurd rfl hcancel
      | overdue j =>
        obtain rfl := Option.some.inj hx
        cases hdue : r.isOverdue s.pool.now with
        | false =>
          refine .inr (hstays ?_)
          simp [happen, step, hi, Service.overdue, hstage, hdue]
        | true =>
          -- as the clock has not passed the end of the wait, that is now
          have hlate : ∃ t, r.limit = some t ∧ r.since + t ≤ s.pool.now := by
            simpa [Reading.isOverdue, Reading.deadline?, Option.any_eq_true] using hdue
          obtain ⟨t, ht, hle⟩ := hlate
          exact .inl (h.overdue ht (Nat.le_antisymm (h.notLate t ht) hle))
  · exact .inr (hstays (getElem?_happen hx hi))

/-! ## Runs -/

/-- The run ends the attempt with what the call has waited for, or leaves the call waiting for it;
then it may go on with the arrivals that are left. -/
def EndsOrGoesOn (s : Service) (i : CallId) (a : Attempt) (limit : Option Millis) (since : Millis)
    (arrivals : List (Millis × Arrival)) (result : Except ReadFailure Response) (time : Millis)
    (xs : List Happening) : Prop :=
  EndsAt i a (readOutcome a result) time s xs ∨
    ∃ r rest, (s.after xs).Awaits i a r rest result time ∧ r.limit = limit ∧
      ∀ ys, Receives i limit (s.after xs) r.since rest ys →
        EndsAt i a (readOutcome a result) time (s.after xs) ys →
          Receives i limit s since arrivals (xs ++ ys) ∧
            EndsAt i a (readOutcome a result) time s (xs ++ ys)

/-- What the rest of a run comes to, the run comes to if the first arrival can be put in front. -/
theorem EndsOrGoesOn.cons {next : Millis}
    (h : (s.happen x).EndsOrGoesOn i a limit next rest result time xs) (hwaits : s.Exchanges i a r)
    (hreceives : ∀ ys, Receives i limit (s.happen x) next rest ys →
      Receives i limit s since arrivals (x :: ys)) :
    s.EndsOrGoesOn i a limit since arrivals result time (x :: xs) := by
  rcases h with hends | ⟨r', rest', hawaits, hkept, hmore⟩
  · exact .inl (.later hwaits hends)
  · refine .inr ⟨r', rest', hawaits, hkept, fun ys hys hends => ?_⟩
    obtain ⟨hrun, hlater⟩ := hmore ys hys hends
    exact ⟨hreceives _ hrun, .later hwaits hlater⟩

/-- What the call waits for stays the same in a run, whatever happens in it. -/
theorem Receives.endsOrGoesOn (h : Receives i limit s since arrivals xs)
    (hawaits : s.Awaits i a r arrivals result time) (hlimit : r.limit = limit)
    (hsince : r.since = since) :
    s.EndsOrGoesOn i a limit since arrivals result time xs := by
  induction h generalizing r with
  | stop => exact .inr ⟨r, _, hawaits, hlimit, fun ys hys hends => ⟨hsince ▸ hys, hends⟩⟩
  | stopped hnot => exact absurd hawaits.exchanges (hnot a r)
  | arrive htime _ ih =>
    subst hsince
    rcases hawaits.arrive htime with hends | ⟨next, hnext, hsince, hkept⟩
    · exact .inl (hawaits.endsAt hends _)
    · have hrest := ih hnext (hkept.trans hlimit) hsince
      exact hrest.cons hawaits.exchanges fun _ => .arrive htime
  | other harrive hcancel hbefore hnext _ ih =>
    subst hsince hlimit
    rcases hawaits.other harrive hcancel hbefore hnext with hends | hstill
    · exact .inl (hawaits.endsAt hends _)
    · exact (ih hstill rfl rfl).cons hawaits.exchanges fun _ => .other harrive hcancel hbefore hnext

/-- A reading comes to its end no earlier than at the next arrival or when the wait for it is over. -/
theorem le_of_run (hlimit : ∀ t ∈ r.limit, now ≤ r.since + t)
    (hnext : ∀ p ∈ arrivals.head?, now ≤ r.since + p.1)
    (h : r.run arrivals = some (result, time)) : now ≤ time := by
  induction arrivals generalizing r with
  | nil =>
    obtain ⟨deadline, hdeadline, hend⟩ := Option.map_eq_some_iff.1 h
    obtain ⟨t, ht, rfl⟩ := Option.map_eq_some_iff.1 hdeadline
    obtain ⟨-, rfl⟩ := Prod.mk.inj hend
    exact hlimit t ht
  | cons p rest ih =>
    obtain ⟨delay, arrival⟩ := p
    have hp : now ≤ r.since + delay := hnext _ rfl
    by_cases hintime : Reading.InTime r.limit delay
    · cases hreceive : r.receive (r.since + delay) arrival with
      | waiting next =>
        obtain ⟨hsince, -⟩ := receive_waiting hreceive
        rw [Reading.run_of_waiting hintime hreceive] at h
        refine ih ?_ ?_ h
        · exact fun t _ => hsince ▸ hp.trans (Nat.le_add_right _ _)
        · exact fun q _ => hsince ▸ hp.trans (Nat.le_add_right _ _)
      | complete response =>
        rw [Reading.run_of_complete hintime hreceive] at h
        obtain ⟨-, rfl⟩ := Prod.mk.inj (Option.some.inj h)
        exact hp
      | failed failure =>
        rw [Reading.run_of_failed hintime hreceive] at h
        obtain ⟨-, rfl⟩ := Prod.mk.inj (Option.some.inj h)
        exact hp
    · obtain ⟨t, ht, hle⟩ := Reading.exists_of_not_inTime hintime
      rw [Reading.run_late ht hle] at h
      obtain ⟨-, rfl⟩ := Prod.mk.inj (Option.some.inj h)
      exact hlimit t ht

/-- The time at which the wait is over has not passed. -/
theorem Awaits.now_le (h : s.Awaits i a r arrivals result time) : s.pool.now ≤ time :=
  le_of_run h.notLate h.notPast h.run

/-- The clock may go to the time at which something is due. -/
theorem Awaits.clock (h : s.Awaits i a r arrivals result time) (hlimit : ∀ t ∈ r.limit, now ≤ r.since + t)
    (hnext : ∀ p ∈ arrivals.head?, now ≤ r.since + p.1) :
    (s.happen (.aside (.clock now))).Awaits i a r arrivals result time :=
  ⟨h.exchanges, h.run, h.ties, hlimit, hnext⟩

/-- When nothing arrives in time, the timer ends the attempt. -/
theorem Awaits.exists_run_of_late (h : s.Awaits i a r arrivals result time) {t : Millis}
    (hlimit : r.limit = some t) (hlate : ∀ p ∈ arrivals.head?, t ≤ p.1) :
    ∃ ys, Receives i r.limit s r.since arrivals ys ∧
      EndsAt i a (readOutcome a result) time s ys := by
  let due : Happening := .aside (.clock (r.since + t))
  have hwait : ∀ t' ∈ r.limit, r.since + t ≤ r.since + t' := by
    intro t' ht'
    rw [Option.some.inj (hlimit.symm.trans ht')]
  have hnext : ∀ p ∈ arrivals.head?, r.since + t ≤ r.since + p.1 := fun p hp =>
    Nat.add_le_add_left (hlate p hp) _
  have hdue := h.clock hwait hnext
  have hconcludes := hdue.overdue hlimit rfl
  have hends := hdue.endsAt hconcludes []
  have hnow : ((s.happen due).happen (.event (.overdue i))).pool.now = r.since + t := by
    obtain ⟨e, he, -⟩ := hconcludes
    exact now_happen_of_ending he
  refine ⟨[due, .event (.overdue i)], ?_, .later h.exchanges hends⟩
  refine .other nofun nofun hwait hnext (.other nofun nofun ?_ ?_ .stop)
  · rwa [hnow]
  · rwa [hnow]

/-- The arrivals can reach the call, and then the attempt ends. -/
theorem Awaits.exists_run (h : s.Awaits i a r arrivals result time) :
    ∃ ys, Receives i r.limit s r.since arrivals ys ∧
      EndsAt i a (readOutcome a result) time s ys := by
  induction arrivals generalizing s r with
  | nil =>
    obtain ⟨deadline, hdeadline, -⟩ := Option.map_eq_some_iff.1 h.run
    obtain ⟨t, ht, -⟩ := Option.map_eq_some_iff.1 hdeadline
    exact h.exists_run_of_late ht nofun
  | cons p rest ih =>
    obtain ⟨delay, arrival⟩ := p
    by_cases hintime : Reading.InTime r.limit delay
    · let due : Happening := .aside (.clock (r.since + delay))
      have hwait : ∀ t ∈ r.limit, r.since + delay ≤ r.since + t := fun t ht =>
        Nat.add_le_add_left (hintime t ht).le _
      have hnext : ∀ p ∈ ((delay, arrival) :: rest).head?, r.since + delay ≤ r.since + p.1 := by
        rintro p hp
        rw [← Option.some.inj hp]
      have hreceives {ys : List Happening} (hys : Receives i r.limit
          ((s.happen due).happen (.event (.arrive i arrival))) (s.happen due).pool.now rest ys) :
          Receives i r.limit s r.since ((delay, arrival) :: rest)
            (due :: .event (.arrive i arrival) :: ys) :=
        .other nofun nofun hwait hnext (.arrive rfl hys)
      have hdue := h.clock hwait hnext
      rcases hdue.arrive rfl with hends | ⟨next, hnext, hsince, hlimit⟩
      · exact ⟨_, hreceives .stop, .later h.exchanges (hdue.endsAt hends [])⟩
      · obtain ⟨ys, hys, hends⟩ := ih hnext
        rw [hsince, hlimit] at hys
        exact ⟨_, hreceives hys, .later h.exchanges (.later hdue.exchanges hends)⟩
    · obtain ⟨t, ht, hle⟩ := Reading.exists_of_not_inTime hintime
      refine h.exists_run_of_late ht ?_
      rintro p hp
      rwa [← Option.some.inj hp]

/-- The lease of a call holds a connection, and so the request is sent. -/
theorem exchanges_proceed {held : Held} (hi : s.calls[i]? = some call)
    (hstage : call.stage = .leasing a) (hheld : s.pool.phase? a.lease = some (.held held)) :
    (s.happen (.event (.proceed i))).Exchanges i a (.start s.readLimit s.pool.now) ∧
      (s.happen (.event (.proceed i))).pool = s.pool := by
  have hhappen : s.happen (.event (.proceed i)) =
      s.setStage i (.exchanging a (.start s.readLimit s.pool.now)) := by
    simp [happen, step, hi, proceed, hstage, hheld, leaseOutcome?]
  rw [hhappen]
  exact ⟨⟨_, getElem?_setStage_self hi _, rfl⟩, rfl⟩

end Service
end PooledHttp.Client
