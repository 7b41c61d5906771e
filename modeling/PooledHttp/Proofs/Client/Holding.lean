import PooledHttp.Proofs.Client.Runs

/-!
# Attempts and their leases

Each attempt under way has a lease of its own, for the route that it is going to. While the request is
being answered, the lease holds a connection; nobody but the attempt can give it up. `Service.Linked`
says this of one state, and `Service.Turn.attempts` says of each turn where the attempts after it come
from: they were under way before, or one has just been begun, with a new lease.
-/

set_option autoImplicit false

namespace PooledHttp.Client.Service

open Pool

/-- Every attempt under way has a lease of its own. -/
structure Linked (s : Service) : Prop where
  prepared : s.Prepared
  lease : ∀ (i : CallId) (call : Call) (a : Attempt), s.calls[i]? = some call →
    call.stage.attempt? = some a →
      ∃ lease, s.pool.leases[a.lease]? = some lease ∧ lease.route = a.route
  held : ∀ (i : CallId) (call : Call) (a : Attempt) (reading : Reading), s.calls[i]? = some call →
    call.stage = .exchanging a reading → ∃ held, s.pool.phase? a.lease = some (.held held)
  distinct : ∀ (i j : CallId) (a b : Attempt), s.attempt? i = some a → s.attempt? j = some b →
    a.lease = b.lease → i = j

/-- The attempt was under way before, and its lease is still its own. -/
structure Carried (s t : Service) (i : CallId) (call : Call) (a : Attempt) : Prop where
  before : ∃ was, s.calls[i]? = some was ∧ was.request = call.request ∧ was.stage.attempt? = some a
  spares : System.Spares a.lease s.pool t.pool
  held : ∀ reading, call.stage = .exchanging a reading →
    ∃ held, s.pool.phase? a.lease = some (.held held)

/-- The attempt has just been begun, with a new lease. -/
structure Begun (s t : Service) (call : Call) (a : Attempt) : Prop where
  stage : call.stage = .leasing a
  prepared : ∃ wire, call.request.prepare s.settings.request.expectContinue a.route = .ok wire
  lease_eq : a.lease = s.pool.leases.length
  lease : t.pool.leases[a.lease]? =
    some ⟨a.route, s.settings.request.leaseTimeout.map (t.pool.now + ·), .claiming⟩

variable {s t : Service} {x : Happening} {i j : CallId} {call : Call} {a b : Attempt} {e : Ending}

/-- An attempt under way is that of a call whose stage has one. -/
theorem attempt?_eq_some : s.attempt? i = some a ↔
    ∃ call, s.calls[i]? = some call ∧ call.stage.attempt? = some a := by
  simp [attempt?, Option.bind_eq_some_iff]

/-- An attempt that was carried over was under way before. -/
theorem Carried.attempt?_eq (h : Carried s t i call a) : s.attempt? i = some a := by
  obtain ⟨was, hwas, -, hattempt⟩ := h.before
  exact attempt?_eq_some.2 ⟨was, hwas, hattempt⟩

/-- The lease of an attempt under way exists. -/
theorem Linked.lease_lt_length (h : s.Linked) (ha : s.attempt? i = some a) :
    a.lease < s.pool.leases.length := by
  obtain ⟨call, hi, hattempt⟩ := attempt?_eq_some.1 ha
  obtain ⟨lease, hl, -⟩ := h.lease i call a hi hattempt
  exact (List.getElem?_eq_some_iff.1 hl).1

/-- Attempts of two calls have two leases. -/
theorem Linked.lease_ne (h : s.Linked) (ha : s.attempt? i = some a) (hb : s.attempt? j = some b)
    (hne : i ≠ j) : some b.lease ≠ some a.lease := fun heq =>
  hne (h.distinct i j a b ha hb (Option.some.inj heq).symm)

/-- An attempt that ends was under way. -/
theorem Ends.attempt?_eq (h : s.Ends x e) : s.attempt? e.call = some e.attempt := by
  obtain ⟨ended, hended, -, hattempt⟩ := h.attempt
  exact attempt?_eq_some.2 ⟨ended, hended, hattempt⟩

/-- A call that leases or exchanges is in that attempt. -/
theorem attempt_of_exchange {p : Prop} (hstage : call.stage = .leasing a ∧ p ∨
    ∃ reading, call.stage = .exchanging a reading) : call.stage.attempt? = some a := by
  rcases hstage with ⟨hleasing, -⟩ | ⟨reading, hexchanging⟩
  · rw [hleasing, Stage.attempt?]
  · rw [hexchanging, Stage.attempt?]

/-! ## The calls after a turn -/

/-- Settling a lease concerns the pool alone. -/
@[simp]
theorem calls_settle : (s.settle e).calls = s.calls := by
  unfold settle
  cases e.handling <;> rfl

/-- After a call is added, a call was there before, or is the new one in the last place. -/
theorem call_push {new : Call} (h : (s.push new).calls[j]? = some call) :
    s.calls[j]? = some call ∨ j = s.calls.length ∧ call = new := by
  simp only [push, List.getElem?_append] at h
  split at h
  case isTrue => exact .inl h
  case isFalse hnot =>
    have hlast := (List.getElem?_eq_some_iff.1 h).1
    simp only [List.length_singleton] at hlast
    have hge := Nat.le_of_sub_eq_zero (Nat.lt_one_iff.1 hlast)
    exact .inr ⟨Nat.le_antisymm hge (Nat.le_of_not_lt hnot),
      List.mem_singleton.1 (List.mem_of_getElem? h)⟩

/-- After a call changes its stage, it has only that changed, and the others are as they were. -/
theorem call_setStage {stage : Stage} (h : (s.setStage i stage).calls[j]? = some call) :
    j = i ∧ (∃ was, s.calls[i]? = some was ∧ call = { was with stage := stage }) ∨
      j ≠ i ∧ s.calls[j]? = some call := by
  simp only [setStage, List.getElem?_modify, Option.map_eq_map, Option.map_eq_some_iff] at h
  obtain ⟨was, hwas, hcall⟩ := h
  by_cases hij : i = j
  · subst hij
    exact .inl ⟨rfl, was, hwas, by simpa using hcall.symm⟩
  · rw [if_neg hij] at hcall
    exact .inr ⟨Ne.symm hij, hcall ▸ hwas⟩

/-- An attempt under way whose lease is spared is carried over. -/
theorem Linked.carried (h : s.Linked) (hi : s.calls[i]? = some call)
    (ha : call.stage.attempt? = some a) (hspares : System.Spares a.lease s.pool t.pool) :
    Carried s t i call a :=
  ⟨⟨call, hi, rfl, ha⟩, hspares, fun reading hstage => h.held i call a reading hi hstage⟩

/-- Only the call itself gives up the lease of its attempt. -/
theorem yields_ne_of_free {event : Pool.Event} (hfree : s.isReserved event = false)
    (ha : s.attempt? i = some a) : event.yields? ≠ some a.lease := by
  intro hyields
  obtain ⟨call, hi, hattempt⟩ := attempt?_eq_some.1 ha
  have hreserved : s.isReserved event = true := by
    cases event with
    | cancel | drop | release =>
      obtain rfl := Option.some.inj hyields
      simp only [isReserved, List.any_eq_true]
      exact ⟨call, List.mem_of_getElem? hi, by simp [hattempt]⟩
    | start | claim | ready | unready | connected | refused | broadcast | broadcastRemoval | resume
    | expire | closed | tick | closeExpired | closeIdle | shutdown => cases hyields
  rw [hfree] at hreserved
  cases hreserved

/-- What is not reserved for a call spares the leases of all attempts. -/
theorem Outside.spares {p : System} (h : s.Outside x p) (ha : s.attempt? i = some a) :
    System.Spares a.lease s.pool p := by
  cases h with
  | stay => exact .refl
  | aside other => exact System.spares_aside other
  | event event hfree => exact System.spares_step (yields_ne_of_free hfree ha)
  | shutdown => exact System.spares_step nofun

/-- When an attempt ends, the leases of the other attempts are spared. -/
theorem Linked.spares_settle (h : s.Linked) (hends : s.Ends x e) (hi : s.calls[i]? = some call)
    (ha : call.stage.attempt? = some a) (hne : i ≠ e.call) :
    System.Spares a.lease s.pool (s.settle e).pool := by
  have hyields := hends.yields
  unfold settle
  cases hhandling : e.handling with
  | none => exact .refl
  | some handling =>
    refine System.spares_step ?_
    rw [hyields handling hhandling]
    exact h.lease_ne (attempt?_eq_some.2 ⟨call, hi, ha⟩) hends.attempt?_eq hne

/-- The lease that is started after the leases of `s`. -/
theorem begun_start {p : System} (hlength : p.leases.length = s.pool.leases.length)
    {request : Request} {route : Route} {wire : WireRequest}
    (hprep : request.prepare s.settings.request.expectContinue route = .ok wire) (number : Nat)
    (ht : t.pool = p.step (.start route s.settings.request.leaseTimeout)) :
    Begun s t ⟨request, .leasing ⟨route, number, s.pool.leases.length⟩⟩
      ⟨route, number, s.pool.leases.length⟩ := by
  have hnew := System.getElem?_start (s := p) route s.settings.request.leaseTimeout
  have hnow : t.pool.now = p.now := by
    rw [ht]
    rfl
  rw [hlength, ← ht, ← hnow] at hnew
  exact ⟨rfl, ⟨wire, hprep⟩, rfl, hnew⟩

/-- Where the attempts after a turn come from. -/
theorem Turn.attempts (ht : Turn s x t) (h : s.Linked) : ∃ k, ∀ i call a, t.calls[i]? = some call →
    call.stage.attempt? = some a → Carried s t i call a ∨ i = k ∧ Begun s t call a := by
  have hstart (p : System) (route : Route) (l : LeaseId) :
      System.Spares l p (p.step (.start route s.settings.request.leaseTimeout)) :=
    System.spares_step nofun
  cases ht with
  | outside hnone hp owned =>
    refine ⟨0, fun i call a hi ha => .inl ?_⟩
    exact h.carried hi ha (hp.spares (attempt?_eq_some.2 ⟨call, hi, ha⟩))
  | reject hnone request error =>
    refine ⟨0, fun i call a hi ha => .inl ?_⟩
    rcases call_push hi with hold | ⟨-, rfl⟩
    · exact h.carried hold ha .refl
    · cases ha
  | accept hnone hprep =>
    refine ⟨s.calls.length, fun i call a hi ha => ?_⟩
    rcases call_push hi with hold | ⟨hlast, rfl⟩
    · exact .inl (h.carried hold ha (hstart _ _ _))
    · obtain rfl := Option.some.inj ha
      exact .inr ⟨hlast, begun_start rfl hprep 1 rfl⟩
  | @exchange hnone k was b hk hstage reading =>
    refine ⟨0, fun i call a hi ha => .inl ?_⟩
    rcases call_setStage hi with ⟨rfl, was', hwas', rfl⟩ | ⟨-, hsame⟩
    · obtain rfl : was = was' := Option.some.inj (hk.symm.trans hwas')
      obtain rfl := Option.some.inj ha
      refine ⟨⟨was, hk, rfl, attempt_of_exchange hstage⟩, .refl, fun _ _ => ?_⟩
      rcases hstage with ⟨-, hheld⟩ | ⟨before, hexchanging⟩
      · exact hheld
      · exact h.held _ was b before hk hexchanging
    · exact h.carried hsame ha .refl
  | @finish e he result hverdict =>
    refine ⟨0, fun i call a hi ha => .inl ?_⟩
    rcases call_setStage hi with ⟨-, was, -, rfl⟩ | ⟨hne, hsame⟩
    · cases ha
    · rw [calls_settle] at hsame
      exact h.carried hsame ha (h.spares_settle (ends_of_ending he) hsame ha hne)
  | @retry e he hverdict =>
    -- the call that is tried again has a new lease, and all the others keep theirs
    have hends := ends_of_ending he
    obtain ⟨ended, hended, hrequest, hattempt⟩ := hends.attempt
    obtain ⟨wire, hwire⟩ := h.prepared e.call ended e.attempt hended hattempt
    refine ⟨e.call, fun i call a hi ha => ?_⟩
    rcases call_setStage hi with ⟨hcall, was, hwas, rfl⟩ | ⟨hne, hsame⟩
    · obtain rfl : ended = was := by
        rw [inPool, calls_settle, hended] at hwas
        exact Option.some.inj hwas
      obtain rfl := Option.some.inj ha
      exact .inr ⟨hcall, begun_start hends.length_leases hwire _ (by simp)⟩
    · rw [inPool, calls_settle] at hsame
      exact .inl (h.carried hsame ha
        ((h.spares_settle hends hsame ha hne).trans (hstart _ _ _)))
  | @cancel hnone k was b hk hb =>
    refine ⟨0, fun i call a hi ha => .inl ?_⟩
    rcases call_setStage hi with ⟨-, was', -, rfl⟩ | ⟨hne, hsame⟩
    · cases ha
    · have hother : some b.lease ≠ some a.lease := h.lease_ne (attempt?_eq_some.2 ⟨call, hsame, ha⟩)
        (attempt?_eq_some.2 ⟨was, hk, hb⟩) hne
      refine h.carried hsame ha ?_
      exact (System.spares_step (e := .cancel b.lease) hother).trans
        (System.spares_step (e := .drop b.lease) hother)

/-! ## The course of a call -/

/-- How a call goes on. -/
inductive Course (s : Service) (x : Happening) (i : CallId) (call : Call) : Call → Prop
  /-- Nothing has happened to it. -/
  | stay (hnone : ∀ e, s.ending? x = some e → e.call ≠ i) : Course s x i call call
  | exchange (hnone : s.ending? x = none) {a : Attempt} (ha : call.stage.attempt? = some a)
    (reading : Reading) : Course s x i call { call with stage := .exchanging a reading }
  | finish {e : Ending} (he : s.ending? x = some e) (hi : e.call = i)
    {result : Except ClientError Response}
    (hverdict : s.settings.retry.verdict call.request.isIdempotent e.attempt.number e.outcome =
      some result) : Course s x i call { call with stage := .finished e.attempt.number result }
  | retry {e : Ending} (he : s.ending? x = some e) (hi : e.call = i)
    (hverdict : s.settings.retry.verdict call.request.isIdempotent e.attempt.number e.outcome = none)
    (l : LeaseId) : Course s x i call
      { call with stage := .leasing ⟨e.attempt.route, e.attempt.number + 1, l⟩ }
  | cancel (hnone : s.ending? x = none) {a : Attempt} (ha : call.stage.attempt? = some a) :
    Course s x i call { call with stage := .cancelled }

/-- A call that changes its stage is the same otherwise. -/
theorem getElem?_setStage_self (hi : s.calls[i]? = some call) (stage : Stage) :
    (s.setStage i stage).calls[i]? = some { call with stage := stage } := by
  simp [setStage, hi]

/-- When a call changes its stage, the others stay as they are. -/
theorem getElem?_setStage_ne (hne : j ≠ i) (stage : Stage) :
    (s.setStage i stage).calls[j]? = s.calls[j]? := by
  simp [setStage, Ne.symm hne]

/-- When a call is added, the others stay as they are. -/
theorem getElem?_push (hi : s.calls[i]? = some call) (new : Call) :
    (s.push new).calls[i]? = some call := by
  rw [push, List.getElem?_append_left (List.getElem?_eq_some_iff.1 hi).1, hi]

/-- A call that is added takes the next number. -/
theorem getElem?_push_self (s : Service) (new : Call) :
    (s.push new).calls[s.calls.length]? = some new :=
  List.getElem?_concat_length

/-- The attempt under way for a call is that of its stage. -/
theorem attempt?_of_call (hi : s.calls[i]? = some call) : s.attempt? i = call.stage.attempt? := by
  rw [attempt?, hi, Option.bind_some]

/-- When a call is added, the attempts of the others go on. -/
theorem attempt?_push (hi : s.calls[i]? = some call) (new : Call) :
    (s.push new).attempt? i = s.attempt? i := by
  rw [attempt?_of_call hi, attempt?_of_call (getElem?_push hi new)]

/-- When a call changes its stage, the attempts of the others go on. -/
theorem attempt?_setStage_ne (hne : i ≠ j) (stage : Stage) :
    (s.setStage j stage).attempt? i = s.attempt? i := by
  rw [attempt?, getElem?_setStage_ne hne, attempt?]

/-- Settling a lease changes no attempt. -/
@[simp]
theorem attempt?_settle : (s.settle e).attempt? i = s.attempt? i := by
  rw [attempt?, calls_settle, attempt?]

/-- What happens in the pool changes no attempt. -/
@[simp]
theorem attempt?_inPool (event : Pool.Event) : (s.inPool event).attempt? i = s.attempt? i := rfl

/-- The end of an attempt of another call does nothing to a call. -/
theorem Course.stay_of_ne (he : s.ending? x = some e) (hne : i ≠ e.call) :
    s.Course x i call call := by
  refine .stay ?_
  intro e' he'
  obtain rfl : e = e' := Option.some.inj (he.symm.trans he')
  exact hne.symm

/-- What a turn does to a call. -/
theorem Turn.course (ht : Turn s x t) (hi : s.calls[i]? = some call) :
    ∃ next, t.calls[i]? = some next ∧ s.Course x i call next := by
  have hstay (hnone : s.ending? x = none) : s.Course x i call call := .stay (by simp [hnone])
  cases ht with
  | outside hnone hp owned => exact ⟨call, hi, hstay hnone⟩
  | reject hnone | accept hnone => exact ⟨call, getElem?_push hi _, hstay hnone⟩
  | @exchange hnone k was a hk hstage reading =>
    by_cases hik : i = k
    · subst hik
      obtain rfl : call = was := Option.some.inj (hi.symm.trans hk)
      exact ⟨_, getElem?_setStage_self hi _, .exchange hnone (attempt_of_exchange hstage) reading⟩
    · exact ⟨call, (getElem?_setStage_ne hik _).trans hi, hstay hnone⟩
  | @cancel hnone k was a hk ha =>
    by_cases hik : i = k
    · subst hik
      obtain rfl : call = was := Option.some.inj (hi.symm.trans hk)
      exact ⟨_, getElem?_setStage_self hi _, .cancel hnone ha⟩
    · exact ⟨call, (getElem?_setStage_ne hik _).trans hi, hstay hnone⟩
  | @finish e he result hverdict =>
    obtain ⟨ended, hended, hrequest, -⟩ := (ends_of_ending he).attempt
    by_cases hie : i = e.call
    · subst hie
      obtain rfl : call = ended := Option.some.inj (hi.symm.trans hended)
      rw [← hrequest] at hverdict
      exact ⟨_, getElem?_setStage_self (by rwa [calls_settle]) _, .finish he rfl hverdict⟩
    · refine ⟨call, ?_, .stay_of_ne he hie⟩
      rw [getElem?_setStage_ne hie, calls_settle, hi]
  | @retry e he hverdict =>
    obtain ⟨ended, hended, hrequest, -⟩ := (ends_of_ending he).attempt
    by_cases hie : i = e.call
    · subst hie
      obtain rfl : call = ended := Option.some.inj (hi.symm.trans hended)
      rw [← hrequest] at hverdict
      exact ⟨_, getElem?_setStage_self (by rwa [inPool, calls_settle]) _, .retry he rfl hverdict _⟩
    · refine ⟨call, ?_, .stay_of_ne he hie⟩
      rw [getElem?_setStage_ne hie, inPool, calls_settle, hi]

/-- When an attempt of a call ends, it is the one that was under way. -/
theorem attempt_of_ending {e : Ending} (he : s.ending? x = some e)
    (hi : s.calls[e.call]? = some call) : call.stage.attempt? = some e.attempt := by
  obtain ⟨ended, hended, -, hattempt⟩ := (ends_of_ending he).attempt
  obtain rfl : call = ended := Option.some.inj (hi.symm.trans hended)
  exact hattempt

/-- A call that has come to its end stays as it is, and no attempt of it ends. -/
theorem Course.of_over {next : Call} (h : s.Course x i call next) (hi : s.calls[i]? = some call)
    (hover : call.stage.attempt? = none) :
    next = call ∧ ∀ e, s.ending? x = some e → e.call ≠ i := by
  have hnotUnderWay (a : Attempt) : call.stage.attempt? ≠ some a := by simp [hover]
  -- in all other ways to go on, an attempt was under way before
  cases h with
  | stay hnone => exact ⟨rfl, hnone⟩
  | exchange _ ha | cancel _ ha => exact absurd ha (hnotUnderWay _)
  | finish he hcall | retry he hcall =>
    subst hcall
    exact absurd (attempt_of_ending he hi) (hnotUnderWay _)

/-! ## Attempts along a run -/

/-- At first there are no attempts. -/
theorem linked_init (settings : Settings) (pool : PoolSettings) : (init settings pool).Linked := by
  constructor
  all_goals simp [init, Prepared, attempt?]

/-- Every turn keeps the invariant. -/
theorem Linked.turn (h : s.Linked) (ht : Turn s x t) : t.Linked := by
  obtain ⟨k, hattempts⟩ := ht.attempts h
  constructor
  case prepared =>
    intro i call a hi ha
    rw [ht.settings]
    rcases hattempts i call a hi ha with hcarried | ⟨-, hbegun⟩
    · obtain ⟨was, hwas, hrequest, hattempt⟩ := hcarried.before
      exact hrequest ▸ h.prepared i was a hwas hattempt
    · exact hbegun.prepared
  case lease =>
    intro i call a hi ha
    rcases hattempts i call a hi ha with hcarried | ⟨-, hbegun⟩
    · obtain ⟨was, hwas, -, hattempt⟩ := hcarried.before
      obtain ⟨lease, hl, hroute⟩ := h.lease i was a hwas hattempt
      obtain ⟨next, hnext, -⟩ := hcarried.spares.keeps hl
      exact ⟨_, hnext, hroute⟩
    · exact ⟨_, hbegun.lease, rfl⟩
  case held =>
    intro i call a reading hi hstage
    rcases hattempts i call a hi (by rw [hstage]; rfl) with hcarried | ⟨-, hbegun⟩
    · obtain ⟨held, hheld⟩ := hcarried.held reading hstage
      obtain ⟨lease, hl, hphase⟩ := Option.map_eq_some_iff.1 hheld
      obtain ⟨next, hnext, hkeeps⟩ := hcarried.spares.keeps hl
      exact ⟨held, by rw [System.phase?_of_lease hnext, hkeeps held hphase]⟩
    · rw [hbegun.stage] at hstage
      cases hstage
  case distinct =>
    intro i j a b ha hb heq
    obtain ⟨call, hi, hcall⟩ := attempt?_eq_some.1 ha
    obtain ⟨other, hj, hother⟩ := attempt?_eq_some.1 hb
    -- a lease that was there before is not the one that has just been started
    rcases hattempts i call a hi hcall with hcarried | ⟨hik, hbegun⟩
    · rcases hattempts j other b hj hother with hcarried' | ⟨-, hbegun'⟩
      · exact h.distinct i j a b hcarried.attempt?_eq hcarried'.attempt?_eq heq
      · exact absurd (heq.trans hbegun'.lease_eq)
          (Nat.ne_of_lt (h.lease_lt_length hcarried.attempt?_eq))
    · rcases hattempts j other b hj hother with hcarried' | ⟨hjk, -⟩
      · exact absurd (heq.symm.trans hbegun.lease_eq)
          (Nat.ne_of_lt (h.lease_lt_length hcarried'.attempt?_eq))
      · exact hik.trans hjk.symm

/-- A state of a run of a pool with clients. -/
structure InRun (pool : PoolSettings) (s : Service) : Prop where
  reachable : System.Reachable pool s.pool
  linked : s.Linked

variable {pool : PoolSettings}

/-- In a run, every happening is a turn of the service. -/
theorem InRun.turn_happen (h : s.InRun pool) (x : Happening) : Turn s x (s.happen x) :=
  turn h.linked.prepared x

/-- A run goes on with any happening. -/
theorem InRun.happen (h : s.InRun pool) (x : Happening) : (s.happen x).InRun pool :=
  ⟨h.reachable.trans (h.turn_happen x).reaches, h.linked.turn (h.turn_happen x)⟩

/-- A run goes on with any happenings. -/
theorem InRun.after (h : s.InRun pool) (xs : List Happening) : (s.after xs).InRun pool := by
  induction xs generalizing s with
  | nil => exact h
  | cons x xs ih => exact ih (h.happen x)

/-- Every run begins with a service that has just been made. -/
theorem inRun_init (settings : Settings) (pool : PoolSettings) : (init settings pool).InRun pool :=
  ⟨.refl, linked_init settings pool⟩

/-- The settings stay the same through a run. -/
theorem InRun.settings_after (h : s.InRun pool) (xs : List Happening) :
    (s.after xs).settings = s.settings := by
  induction xs generalizing s with
  | nil => rfl
  | cons x xs ih => exact (ih (h.happen x)).trans (h.turn_happen x).settings

/-- An attempt whose lease was there before has not just been begun. -/
theorem InRun.carried (h : s.InRun pool) (hi : (s.happen x).calls[i]? = some call)
    (hb : call.stage.attempt? = some b) {phase : Phase}
    (hphase : s.pool.phase? b.lease = some phase) : Carried s (s.happen x) i call b := by
  obtain ⟨k, hattempts⟩ := (h.turn_happen x).attempts h.linked
  refine (hattempts i call b hi hb).resolve_right fun hnew => ?_
  obtain ⟨lease, hl, -⟩ := Option.map_eq_some_iff.1 hphase
  exact Nat.ne_of_lt (List.getElem?_eq_some_iff.1 hl).1 hnew.2.lease_eq

/-- An attempt keeps its number, so one with another number has just been begun. -/
theorem InRun.begun_of_ne (h : s.InRun pool) (hi : s.calls[i]? = some call)
    (ha : call.stage.attempt? = some a) {next : Call} (hnext : (s.happen x).calls[i]? = some next)
    (hb : next.stage.attempt? = some b) (hnumber : b.number ≠ a.number) :
    Begun s (s.happen x) next b := by
  obtain ⟨k, hattempts⟩ := (h.turn_happen x).attempts h.linked
  rcases hattempts i next b hnext hb with hcarried | ⟨-, hbegun⟩
  · have hsame := ((attempt?_of_call hi).trans ha).symm.trans hcarried.attempt?_eq
    exact absurd (congrArg Attempt.number (Option.some.inj hsame)).symm hnumber
  · exact hbegun

/-- What a list of happenings does to the pool is a run of the pool. -/
theorem InRun.reaches (h : s.InRun pool) (xs : List Happening) :
    System.Reaches s.pool (s.after xs).pool := by
  induction xs generalizing s with
  | nil => exact .refl
  | cons x xs ih => exact (h.turn_happen x).reaches.trans (ih (h.happen x))

end PooledHttp.Client.Service
