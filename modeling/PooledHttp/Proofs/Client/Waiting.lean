import PooledHttp.Manager
import PooledHttp.Proofs.Client.Retrying
import PooledHttp.Proofs.Pool.Clock

/-!
# How long a request waits for a place

A lease is parked until its deadline at the latest, and each attempt of a call has a lease of its own,
with a deadline of its own. So every attempt waits for the time limit at most. The failure of a lease
that has waited in vain is one after which the policy tries again, so a call as a whole may wait for
the limit as many times as it may try.

The time that passes while an attempt is parked is added up along the run (`Service.parkedTime`). What
carries the induction is the time still left: until the deadline of the attempt under way, and a whole
limit for each attempt that may follow (`Service.InRun.parkedTime_le`). All this is measured by the
ticks of the clock, which does not pass the deadline of a parked lease.
-/

set_option autoImplicit false

namespace PooledHttp

namespace Pool.System

variable {s t : System} {l : LeaseId} {lease : Lease}

/-- The work of calls with their leases takes no time. -/
theorem now_run {events : List Event} (hcalls : ∀ e ∈ events, e.isOfCall = true) :
    (s.run events).now = s.now := by
  refine List.foldlRecOn (motive := fun p => p.now = s.now) events step rfl ?_
  intro p hp e he
  rw [← hp]
  apply now_step
  rintro time rfl
  exact absurd (hcalls _ he) Bool.false_ne_true

end Pool.System

/-- A manager follows from its configuration, which allows at least one attempt. -/
theorem Manager.new_eq_ok {c : Configuration} {m : Manager} (h : Manager.new c = .ok m) :
    0 < c.maxExecutionCount.toNat ∧ m = ⟨c, c.poolSettings,
      ⟨c.requestSettings, ⟨c.maxExecutionCount.toNat⟩, .standard⟩⟩ := by
  unfold Manager.new at h
  split at h
  case h_1 => cases h
  case h_2 hvalid =>
    refine ⟨?_, (Except.ok.inj h).symm⟩
    apply Nat.pos_of_ne_zero
    intro hzero
    have hnone : c.maxExecutionCount = 0 := UInt32.toNat_inj.1 hzero
    unfold Configuration.validate at hvalid
    simp only [hnone, if_true] at hvalid
    repeat' split at hvalid
    all_goals cases hvalid

namespace Client.Service

open Pool

variable {s t : Service} {x : Happening} {i : CallId} {call : Call} {a b : Attempt}
  {pool : PoolSettings} {limit deadline : Millis}

/-- The number of the attempt of a call that is parked. -/
def parkedAttempt? (s : Service) (i : CallId) : Option Nat :=
  (s.attempt? i).bind fun a =>
    if (s.pool.phase? a.lease).any Phase.isParked then some a.number else none

/-- How long a call is parked in the attempts whose numbers are `among` those in question. -/
def parkedTime (s : Service) (i : CallId) (among : Nat → Bool) : List Happening → Millis
  | [] => 0
  | x :: xs =>
    (if (s.parkedAttempt? i).any among then (s.happen x).pool.now - s.pool.now else 0) +
      (s.happen x).parkedTime i among xs

/-- The deadline of the lease that an attempt works with. -/
def deadline? (s : Service) (a : Attempt) : Option Millis :=
  (s.pool.leases[a.lease]?).bind Lease.deadline

/-! ## One happening -/

/-- But for asides that set it, the clock keeps time. -/
theorem Turn.keepsTime (h : Turn s x t) (hx : ∀ time, x ≠ .aside (.clock time)) :
    System.KeepsTime s.pool t.pool := by
  have hdrives := h.drives
  generalize t.pool = q at hdrives
  cases hdrives with
  | shutdown => exact System.keepsTime_step s.pool .shutdown
  | calls events hcalls => exact .inl (System.now_run hcalls)
  | act act hact =>
    subst hact
    cases act with
    | event e => exact System.keepsTime_step s.pool e
    | aside a =>
      refine .inl (System.now_aside ?_)
      rintro time rfl
      exact hx time rfl

/-- The deadline of an attempt is that of its lease. -/
theorem deadline?_eq_some : s.deadline? a = some deadline ↔
    ∃ lease, s.pool.leases[a.lease]? = some lease ∧ lease.deadline = some deadline := by
  simp [deadline?, Option.bind_eq_some_iff]

/-- What becomes of an attempt and its deadline: the call is over, or the attempt goes on with the same
deadline, or another one has begun, which may wait for the limit from now on. -/
inductive Tries (s t : Service) (a : Attempt) (deadline limit : Millis) (next : Call) : Prop
  | ends (h : next.stage.attempt? = none)
  | same (h : next.stage.attempt? = some a) (hdeadline : t.deadline? a = some deadline)
  | again (b : Attempt) (h : next.stage.attempt? = some b) (hnumber : b.number = a.number + 1)
    (hless : a.number < s.settings.retry.maxAttempts)
    (hdeadline : t.deadline? b = some (t.pool.now + limit))

/-- The policy tries again only below the ceiling. -/
theorem lt_maxAttempts_of_verdict {policy : RetryPolicy} {idempotent : Bool} {n : Nat}
    {outcome : Except ClientError Response} (h : policy.verdict idempotent n outcome = none) :
    n < policy.maxAttempts := by
  unfold RetryPolicy.verdict at h
  split at h
  case h_2 => cases h
  case h_1 e =>
    split at h
    case isFalse => cases h
    case isTrue hallows =>
      rw [RetryPolicy.allows_eq, Bool.and_eq_true, decide_eq_true_eq] at hallows
      exact hallows.1

/-- A happening keeps a call in its attempt, ends it, or begins the next one with a new deadline. -/
theorem InRun.tries (h : s.InRun pool) (hlimit : s.settings.request.leaseTimeout = some limit)
    (hi : s.calls[i]? = some call) (ha : call.stage.attempt? = some a)
    (hdeadline : s.deadline? a = some deadline) (x : Happening) :
    ∃ next, (s.happen x).calls[i]? = some next ∧ Tries s (s.happen x) a deadline limit next := by
  obtain ⟨next, hnext, hcourse⟩ := (h.turn_happen x).course hi
  refine ⟨next, hnext, ?_⟩
  obtain ⟨lease, hl, hlease⟩ := deadline?_eq_some.1 hdeadline
  -- an attempt that goes on has its lease spared, and so its deadline is what it was
  have hsame (hstill : next.stage.attempt? = some a) : Tries s (s.happen x) a deadline limit next := by
    have hcarried := h.carried hnext hstill (System.phase?_of_lease hl)
    obtain ⟨phase, hkept, -⟩ := hcarried.spares.keeps hl
    exact .same hstill (deadline?_eq_some.2 ⟨_, hkept, hlease⟩)
  cases hcourse with
  | stay => exact hsame ha
  | exchange _ hb => exact hsame (hb.symm.trans ha)
  | finish | cancel => exact .ends rfl
  | retry he hcall hverdict l =>
    subst hcall
    obtain rfl : a = _ := Option.some.inj (ha.symm.trans (attempt_of_ending he hi))
    have hbegun := h.begun_of_ne hi ha hnext rfl (Nat.succ_ne_self _)
    refine .again _ rfl rfl (lt_maxAttempts_of_verdict hverdict) ?_
    exact deadline?_eq_some.2 ⟨_, hbegun.lease, by rw [hlimit, Option.map_some]⟩

/-- The time for which an attempt is parked during one happening is taken off what is left until its
deadline. -/
theorem parked_add_left_le (hi : s.calls[i]? = some call) (ha : call.stage.attempt? = some a)
    (hdeadline : s.deadline? a = some deadline) (htime : System.KeepsTime s.pool t.pool)
    (among : Nat → Bool) :
    (if (s.parkedAttempt? i).any among then t.pool.now - s.pool.now else 0) +
        (if among a.number then deadline - t.pool.now else 0) ≤
      if among a.number then deadline - s.pool.now else 0 := by
  have hle := htime.le
  obtain ⟨lease, hl, hlease⟩ := deadline?_eq_some.1 hdeadline
  have hparked : s.parkedAttempt? i =
      if lease.phase.isParked then some a.number else none := by
    simp [parkedAttempt?, attempt?_of_call hi, ha, System.phase?_of_lease hl]
  rw [hparked]
  cases hphase : lease.phase.isParked with
  | false =>
    simp only [Bool.false_eq_true, if_false, Option.any_none, Nat.zero_add]
    split
    · exact Nat.sub_le_sub_left hle deadline
    · exact Nat.le_refl 0
  | true =>
    simp only [if_true, Option.any_some]
    cases among a.number with
    | false => simp
    | true =>
      simp only [if_true]
      rcases htime with hstill | ⟨-, hpasses⟩
      · rw [hstill, Nat.sub_self, Nat.zero_add]
      · have hlate := System.le_deadline_of_mayPass hpasses hl hphase hlease
        rw [Nat.add_comm]
        exact (Nat.sub_add_sub_cancel hlate hle).le

/-! ## Runs -/

/-- A call that is over does not wait. -/
theorem InRun.parkedTime_of_over (h : s.InRun pool) (hi : s.calls[i]? = some call)
    (hover : call.stage.attempt? = none) (among : Nat → Bool) (xs : List Happening) :
    s.parkedTime i among xs = 0 := by
  induction xs generalizing s with
  | nil => rfl
  | cons x xs ih =>
    obtain ⟨next, hnext, hcourse⟩ := (h.turn_happen x).course hi
    obtain ⟨rfl, -⟩ := hcourse.of_over hi hover
    have hnone : s.parkedAttempt? i = none := by
      rw [parkedAttempt?, attempt?_of_call hi, hover, Option.bind_none]
    rw [parkedTime, hnone, ih (h.happen x) hnext]
    rfl

/-- The attempts after number `n` that are in question. -/
def later (n max : Nat) (among : Nat → Bool) : Nat := (List.range' (n + 1) (max - n)).countP among

/-- The attempts after a number are the next one and those after it. -/
theorem later_succ {n max : Nat} (hless : n < max) (among : Nat → Bool) :
    later n max among = (if among (n + 1) then 1 else 0) + later (n + 1) max among := by
  have hsplit : max - n = max - (n + 1) + 1 := by omega
  rw [later, hsplit, List.range'_succ, List.countP_cons, later, Nat.add_comm]

/-- A call is parked for no longer than what is left until the deadline of its attempt, and the limit
for each attempt that may follow. -/
theorem InRun.parkedTime_le (h : s.InRun pool)
    (hlimit : s.settings.request.leaseTimeout = some limit) (hi : s.calls[i]? = some call)
    (ha : call.stage.attempt? = some a) (hdeadline : s.deadline? a = some deadline)
    (among : Nat → Bool) (xs : List Happening) (hclock : ∀ time, .aside (.clock time) ∉ xs) :
    s.parkedTime i among xs ≤ (if among a.number then deadline - s.pool.now else 0) +
      later a.number s.settings.retry.maxAttempts among * limit := by
  induction xs generalizing s call a deadline with
  | nil => exact Nat.zero_le _
  | cons x xs ih =>
    have ht := h.happen x
    have hturn := h.turn_happen x
    have htime := hturn.keepsTime fun time hx => hclock time (hx ▸ List.mem_cons_self)
    have hclock' : ∀ time, .aside (.clock time) ∉ xs := fun time hmem => hclock time (.tail x hmem)
    have hlimit' : (s.happen x).settings.request.leaseTimeout = some limit := by
      rw [hturn.settings, hlimit]
    have hfirst := parked_add_left_le hi ha hdeadline htime among
    obtain ⟨next, hnext, htries⟩ := h.tries hlimit hi ha hdeadline x
    have hparked := Nat.le_of_add_right_le hfirst
    rw [parkedTime]
    -- the call has ended, is still in this attempt, or has begun the next with the whole limit
    cases htries with
    | ends hover =>
      rw [ht.parkedTime_of_over hnext hover, Nat.add_zero]
      exact hparked.trans (Nat.le_add_right _ _)
    | same hstill hkept =>
      have hrest := ih ht hlimit' hnext hstill hkept hclock'
      rw [hturn.settings] at hrest
      refine (Nat.add_le_add_left hrest _).trans ?_
      rw [← Nat.add_assoc]
      exact Nat.add_le_add_right hfirst _
    | again b hb hnumber hless hnew =>
      have hrest := ih ht hlimit' hnext hb hnew hclock'
      have hmore : later a.number s.settings.retry.maxAttempts among * limit =
          (if among (a.number + 1) then limit else 0) +
            later (a.number + 1) s.settings.retry.maxAttempts among * limit := by
        rw [later_succ hless, Nat.add_mul, ite_mul, Nat.one_mul, Nat.zero_mul]
      rw [hturn.settings, hnumber, Nat.add_sub_cancel_left, ← hmore] at hrest
      exact Nat.add_le_add hparked hrest

/-- A request that is given to a client is refused, or it gets a lease. -/
theorem submit_cases (s : Service) (request : Request) :
    let t := s.happen (.event (.submit request))
    (∃ error, t.calls[s.calls.length]? = some ⟨request, .finished 0 (.error error)⟩) ∨
      ∃ route, t.calls[s.calls.length]? =
          some ⟨request, .leasing ⟨route, 1, s.pool.leases.length⟩⟩ ∧
        t.pool = s.pool.step (.start route s.settings.request.leaseTimeout) := by
  have hsubmitted := s.submitted request
  generalize s.happen (.event (.submit request)) = t at hsubmitted ⊢
  cases hsubmitted with
  | gone => exact .inl ⟨.poolClosed, getElem?_push_self s _⟩
  | rejected reason => exact .inl ⟨.invalidRequest reason, getElem?_push_self s _⟩
  | @begun _ route => exact .inr ⟨route, getElem?_push_self (s.inPool _) _, rfl⟩

/-- From its beginning on, a call is parked for the limit at most in each of the attempts that it may
make. -/
theorem InRun.parkedTime_submit (h : s.InRun pool)
    (hlimit : s.settings.request.leaseTimeout = some limit) (hmin : 0 < s.settings.retry.maxAttempts)
    (request : Request) (xs : List Happening) (hclock : ∀ time, .aside (.clock time) ∉ xs)
    (among : Nat → Bool) :
    (s.happen (.event (.submit request))).parkedTime s.calls.length among xs ≤
      later 0 s.settings.retry.maxAttempts among * limit := by
  have ht := h.happen (.event (.submit request))
  have hsettings := (h.turn_happen (.event (.submit request))).settings
  rcases submit_cases s request with ⟨error, hcall⟩ | ⟨route, hcall, hpool⟩
  · rw [ht.parkedTime_of_over hcall rfl]
    exact Nat.zero_le _
  · generalize s.happen (.event (.submit request)) = t at ht hsettings hcall hpool
    have hlease : t.pool.leases[s.pool.leases.length]? =
        some ⟨route, some (t.pool.now + limit), .claiming⟩ := by
      rw [hpool, System.getElem?_start, hlimit]
      rfl
    have hdeadline : t.deadline? ⟨route, 1, s.pool.leases.length⟩ = some (t.pool.now + limit) :=
      deadline?_eq_some.2 ⟨_, hlease, rfl⟩
    have hbound := ht.parkedTime_le (by rw [hsettings, hlimit]) hcall rfl hdeadline among xs hclock
    rw [hsettings, Nat.add_sub_cancel_left] at hbound
    rwa [later_succ hmin, Nat.add_mul, ite_mul, Nat.one_mul, Nat.zero_mul]

/-- In any run of a manager's pool with its clients, and with a time limit for the wait for a place, let
a request be given to a client. In each of its attempts it is parked for no longer than the limit, and
in all of them together for no longer than the limit times the number of attempts it may take, as long
as the clock keeps time. -/
theorem wait_bounded_in_each_attempt {c : Configuration} {m : Manager} (hm : Manager.new c = .ok m)
    (hlimit : c.connectionRequestTimeout ≠ 0) (before : List Happening) (request : Request)
    (xs : List Happening) (hclock : ∀ time, .aside (.clock time) ∉ xs) :
    let s := m.service.after before
    let t := s.happen (.event (.submit request))
    (∀ n, t.parkedTime s.calls.length (· == n) xs ≤ c.connectionRequestTimeout.toNat) ∧
      t.parkedTime s.calls.length (fun _ => true) xs ≤
        c.maxExecutionCount.toNat * c.connectionRequestTimeout.toNat := by
  intro s t
  obtain ⟨hmin, rfl⟩ := Manager.new_eq_ok hm
  have hrun : s.InRun c.poolSettings := (inRun_init _ _).after before
  have hsettings : s.settings = ⟨c.requestSettings, ⟨c.maxExecutionCount.toNat⟩, .standard⟩ :=
    (inRun_init _ _).settings_after before
  have htimeout : s.settings.request.leaseTimeout = some c.connectionRequestTimeout.toNat := by
    have hne : c.connectionRequestTimeout.toNat ≠ 0 := fun hzero => hlimit (UInt64.toNat_inj.1 hzero)
    rw [hsettings]
    exact if_neg hne
  have hmin' : 0 < s.settings.retry.maxAttempts := by rwa [hsettings]
  have hbound := hrun.parkedTime_submit htimeout hmin' request xs hclock
  rw [hsettings] at hbound
  constructor
  · intro n
    have honce : later 0 c.maxExecutionCount.toNat (· == n) ≤ 1 :=
      List.nodup_iff_count_le_one.1 List.nodup_range' n
    exact (hbound _).trans ((Nat.mul_le_mul_right _ honce).trans_eq (Nat.one_mul _))
  · have hall : later 0 c.maxExecutionCount.toNat (fun _ => true) = c.maxExecutionCount.toNat := by
      simp [later]
    exact hall ▸ hbound _

/-- The only place is taken. A call waits for the limit of ten milliseconds in vain, tries again, and
waits for the limit once more: twenty milliseconds in all. -/
theorem waits_twice :
    let c : Configuration := { Configuration.standard with
      maxPerRoute := 1, maxTotal := 1, connectionRequestTimeout := 10, maxExecutionCount := 2 }
    let request : Request :=
      ⟨.get, ⟨some ['h', 't', 't', 'p'], some ['h'], ['/'], none⟩, .http11, ⟨[]⟩, []⟩
    let before : List Happening :=
      [.event (.pool (.start ⟨.http, ['h'], 80⟩ none)), .event (.pool (.claim 0 [])),
        .event (.pool (.connected 0))]
    let xs : List Happening :=
      [.event (.pool (.claim 1 [])), .event (.pool (.tick 10)), .event (.pool (.expire 1)),
        .event (.proceed 0), .event (.pool (.claim 2 [])), .event (.pool (.tick 10)),
        .event (.pool (.expire 2)), .event (.proceed 0)]
    ∃ m, Manager.new c = .ok m ∧
      let s := m.service.after before
      let t := s.happen (.event (.submit request))
      (∀ time, .aside (.clock time) ∉ xs) ∧ c.connectionRequestTimeout.toNat = 10 ∧
        t.parkedTime s.calls.length (fun _ => true) xs = 20 ∧
        ¬ t.parkedTime s.calls.length (fun _ => true) xs ≤ c.connectionRequestTimeout.toNat := by
  intro c request before xs
  refine ⟨_, rfl, ?_, rfl, by decide, by decide⟩
  simp [xs]

/-- In such a run, both bounds are reached. -/
theorem wait_bounded_in_each_attempt_twice :
    let c : Configuration := { Configuration.standard with
      maxPerRoute := 1, maxTotal := 1, connectionRequestTimeout := 10, maxExecutionCount := 2 }
    let request : Request :=
      ⟨.get, ⟨some ['h', 't', 't', 'p'], some ['h'], ['/'], none⟩, .http11, ⟨[]⟩, []⟩
    let before : List Happening :=
      [.event (.pool (.start ⟨.http, ['h'], 80⟩ none)), .event (.pool (.claim 0 [])),
        .event (.pool (.connected 0))]
    let xs : List Happening :=
      [.event (.pool (.claim 1 [])), .event (.pool (.tick 10)), .event (.pool (.expire 1)),
        .event (.proceed 0), .event (.pool (.claim 2 [])), .event (.pool (.tick 10))]
    ∃ m, Manager.new c = .ok m ∧ c.connectionRequestTimeout ≠ 0 ∧
      (∀ time, .aside (.clock time) ∉ xs) ∧
      let s := m.service.after before
      let t := s.happen (.event (.submit request))
      t.parkedTime s.calls.length (· == 2) xs = 10 ∧
        (∀ n, t.parkedTime s.calls.length (· == n) xs ≤ 10) ∧
        t.parkedTime s.calls.length (fun _ => true) xs = 20 ∧
        t.parkedTime s.calls.length (fun _ => true) xs ≤ 2 * 10 := by
  intro c request before xs
  have hlimit : c.connectionRequestTimeout ≠ 0 := by decide
  have hclock : ∀ time, .aside (.clock time) ∉ xs := by simp [xs]
  refine ⟨_, rfl, hlimit, hclock, by decide, ?_, by decide, ?_⟩
  · exact (wait_bounded_in_each_attempt (c := c) rfl hlimit before request xs hclock).1
  · exact (wait_bounded_in_each_attempt (c := c) rfl hlimit before request xs hclock).2

end Client.Service
end PooledHttp
