import PooledHttp.Proofs.Client.Holding
import PooledHttp.Proofs.Pool.Closing
import PooledHttp.Proofs.Pool.Parting

/-!
# After the shutdown

A pool is shut down by a request of its own or when its manager goes away. From then on it only gets
emptier, and so do its clients' calls: an attempt that has got a connection may still be finished, but
no lease claims a place any more, so no other exchange is ever started. `Service.Final` collects what
holds in every later state.

A lease that is parked at the shutdown is over when it has been woken and has claimed a place, whatever
happens in between, unless it expires before the broadcast of the shutdown (`Service.InTime`,
`Service.InRun.ended_of_inTime`). For the calls there are two invariants. An attempt was
under way at the shutdown, or has a lease that was started later (`Service.InRun.attempt_or_later`). A
call that was under way makes at most one attempt more, and that one finds the pool closed
(`Service.Winding`).
-/

set_option autoImplicit false

namespace PooledHttp.Client.Service

open Pool

variable {s t : Service} {x : Happening} {xs : List Happening} {i : CallId} {call : Call}
  {a b : Attempt} {l : LeaseId} {pool : PoolSettings} {e : Ending}

/-! ## Leases -/

/-- The happening is the expiry of the lease. -/
def Expires (l : LeaseId) (x : Happening) : Prop :=
  x = .event (.pool (.expire l)) ∨ x = .aside (.expireWoken l)

/-- A lease on its way to the end stays on it, unless the happening is its expiry and it may expire. -/
theorem InRun.leaving_happen (h : s.InRun pool) (hclosed : s.pool.books.closed = true) {n : Nat}
    (hexpire : x = .event (.pool (.expire l)) → n ≤ 2) (hwoken : x = .aside (.expireWoken l) → n ≤ 1)
    {phase : Phase} (hphase : s.pool.phase? l = some phase) (hleaving : phase.Leaving n) :
    ∃ q, (s.happen x).pool.phase? l = some q ∧ q.Leaving n := by
  obtain ⟨lease, hl, rfl⟩ := Option.map_eq_some_iff.1 hphase
  -- a happening can be several events of the pool, each of which has to keep the lease on its way
  suffices hnext : System.Reachable pool (s.happen x).pool ∧
      (s.happen x).pool.books.closed = true ∧
      ∃ next, (s.happen x).pool.leases[l]? = some next ∧ next.phase.Leaving n by
    obtain ⟨-, -, next, hl', hleaving'⟩ := hnext
    exact ⟨next.phase, System.phase?_of_lease hl', hleaving'⟩
  refine (h.turn_happen x).pool_induction (P := fun p => System.Reachable pool p ∧
    p.books.closed = true ∧ ∃ next, p.leases[l]? = some next ∧ next.phase.Leaving n)
    ⟨h.reachable, hclosed, lease, hl, hleaving⟩ ?_ ?_
  · rintro p e he ⟨hreachable, hstill, before, hbefore, hwas⟩
    have hexpires (heq : e = .expire l) : n ≤ 2 := hexpire (by rw [he l heq, heq])
    obtain ⟨next, hnext, hleaving⟩ := System.step_leaving hstill hbefore hwas hexpires
    have hreaches := System.reaches_step p e
    exact ⟨hreachable.trans hreaches, (hreachable.waning hstill hreaches).closed, _, hnext, hleaving⟩
  · rintro a rfl
    have hstops (heq : a = .expireWoken l) : n ≤ 1 := hwoken (by rw [heq])
    obtain ⟨next, hnext, hleaving⟩ := System.aside_leaving hclosed hl hleaving hstops
    have hreaches := System.reaches_aside s.pool a
    exact ⟨h.reachable.trans hreaches, (h.reachable.waning hclosed hreaches).closed, _, hnext,
      hleaving⟩

/-- Whatever happens, a lease on its way to the end stays on it, unless it expires while it may. -/
theorem InRun.leaving_after (h : s.InRun pool) (hclosed : s.pool.books.closed = true) {n : Nat}
    (hexpire : .event (.pool (.expire l)) ∈ xs → n ≤ 2)
    (hwoken : .aside (.expireWoken l) ∈ xs → n ≤ 1) {phase : Phase}
    (hphase : s.pool.phase? l = some phase) (hleaving : phase.Leaving n) :
    ∃ q, (s.after xs).pool.phase? l = some q ∧ q.Leaving n := by
  induction xs generalizing s phase with
  | nil => exact ⟨phase, hphase, hleaving⟩
  | cons x xs ih =>
    have hstill := (h.reachable.waning hclosed (h.turn_happen x).reaches).closed
    obtain ⟨q, hq, hstays⟩ := h.leaving_happen hclosed (fun hx => hexpire (hx ▸ List.mem_cons_self))
      (fun hx => hwoken (hx ▸ List.mem_cons_self)) hphase hleaving
    exact ih (h.happen x) hstill (fun hmem => hexpire (.tail x hmem))
      (fun hmem => hwoken (.tail x hmem)) hq hstays

/-- The last steps of a lease that is so many steps away from its end. -/
def stepsOf (l : LeaseId) (failing : List ConnId) : Nat → List Happening
  | 0 => []
  | n + 1 => .event (.pool (System.stepTo l failing n)) :: stepsOf l failing n

/-- A step of a leaving lease in the service is that step in the pool. -/
theorem pool_happen_stepTo (l : LeaseId) (failing : List ConnId) (n : Nat) :
    (s.happen (.event (.pool (System.stepTo l failing n)))).pool =
      s.pool.step (System.stepTo l failing n) := by
  match n with
  | 0 | 1 | n + 2 => rfl

/-- A lease that takes its last steps, with anything between them but an expiry that takes it off its
way, is over. -/
theorem InRun.ended_after (h : s.InRun pool) (hclosed : s.pool.books.closed = true) {n : Nat}
    (hn : n ≤ 3) (hexpire : .event (.pool (.expire l)) ∈ xs → n ≤ 2)
    (hwoken : .aside (.expireWoken l) ∈ xs → n ≤ 1) {phase : Phase}
    (hphase : s.pool.phase? l = some phase) (hleaving : phase.Leaving n) {failing : List ConnId}
    (hsteps : (stepsOf l failing n).Sublist xs) :
    ∃ q, (s.after xs).pool.phase? l = some q ∧ q.Leaving 0 := by
  induction xs generalizing s phase n with
  | nil =>
    cases n with
    | zero => exact ⟨phase, hphase, hleaving⟩
    | succ n => exact absurd (List.sublist_nil.1 hsteps) (List.cons_ne_nil _ _)
  | cons x xs ih =>
    have hs := h.happen x
    have hstill := (h.reachable.waning hclosed (h.turn_happen x).reaches).closed
    rcases List.sublist_cons_iff.1 hsteps with hskip | ⟨rest, hfirst, hrest⟩
    · -- something else happens
      obtain ⟨q, hq, hstay⟩ := h.leaving_happen hclosed
        (fun hx => hexpire (hx ▸ List.mem_cons_self)) (fun hx => hwoken (hx ▸ List.mem_cons_self))
        hphase hleaving
      exact ih hs hstill hn (fun hmem => hexpire (.tail x hmem)) (fun hmem => hwoken (.tail x hmem))
        hq hstay hskip
    · cases n with
      | zero => cases hfirst
      | succ n =>
        obtain ⟨rfl, rfl⟩ := List.cons.inj hfirst
        have hle : n ≤ 2 := Nat.le_of_succ_le_succ hn
        obtain ⟨q, hq, hnext⟩ := h.reachable.stepTo_leaving hclosed hphase hleaving hle failing
        rw [← pool_happen_stepTo] at hq
        exact ih hs hstill (hle.trans (Nat.le_succ 2)) (fun _ => hle)
          (fun hmem => Nat.le_of_succ_le (hwoken (.tail _ hmem))) hq hnext hrest

/-- The lease does not expire before a broadcast is made. -/
structure InTime (l : LeaseId) (xs : List Happening) : Prop where
  /-- It has not stopped waiting when a broadcast reaches it. -/
  waits : .aside (.expireWoken l) ∉ xs
  /-- When its deadline is served, a broadcast has been made. -/
  woken : ∀ before rest, xs = before ++ .event (.pool (.expire l)) :: rest →
    .event (.pool .broadcast) ∈ before

/-- A run in time that does not begin with the broadcast does not begin with the expiry either, and its
rest is in time. -/
theorem InTime.of_cons (h : InTime l (x :: xs)) (hx : x ≠ .event (.pool .broadcast)) :
    ¬ Expires l x ∧ InTime l xs := by
  refine ⟨?_, fun hmem => h.waits (.tail x hmem), fun before rest hsplit => ?_⟩
  · rintro (rfl | rfl)
    · exact absurd (h.woken [] xs rfl) List.not_mem_nil
    · exact h.waits List.mem_cons_self
  · have hbroadcast := h.woken (x :: before) rest (congrArg (x :: ·) hsplit)
    exact (List.mem_cons.1 hbroadcast).resolve_left hx.symm

/-- A broadcast in a closed pool wakes a parked lease. -/
theorem InRun.leaving_of_broadcast (h : s.InRun pool) (hclosed : s.pool.books.closed = true)
    {phase : Phase} (hphase : s.pool.phase? l = some phase) (hleaving : phase.Leaving 3) :
    ∃ q, (s.happen (.event (.pool .broadcast))).pool.phase? l = some q ∧ q.Leaving 2 :=
  h.reachable.stepTo_leaving hclosed hphase hleaving le_rfl []

/-- What happens does not take a parked lease off its way, unless it expires before it is woken. -/
theorem InRun.leaving_of_inTime (h : s.InRun pool) (hclosed : s.pool.books.closed = true)
    (htime : InTime l xs) {phase : Phase} (hphase : s.pool.phase? l = some phase)
    (hleaving : phase.Leaving 3) : ∃ q, (s.after xs).pool.phase? l = some q ∧ q.Leaving 3 := by
  induction xs generalizing s phase with
  | nil => exact ⟨phase, hphase, hleaving⟩
  | cons x xs ih =>
    have hs := h.happen x
    have hstill := (h.reachable.waning hclosed (h.turn_happen x).reaches).closed
    by_cases hx : x = .event (.pool .broadcast)
    · subst hx
      obtain ⟨q, hq, hwoken⟩ := h.leaving_of_broadcast hclosed hphase hleaving
      have hwoken' : .aside (.expireWoken l) ∉ xs := fun hmem => htime.waits (.tail _ hmem)
      obtain ⟨r, hr, hlast⟩ :=
        hs.leaving_after hstill (fun _ => le_rfl) (fun hmem => absurd hmem hwoken') hq hwoken
      exact ⟨r, hr, hlast.succ⟩
    · obtain ⟨hnever, hrest⟩ := htime.of_cons hx
      obtain ⟨q, hq, hstay⟩ := h.leaving_happen hclosed (fun hx => absurd (.inl hx) hnever)
        (fun hx => absurd (.inr hx) hnever) hphase hleaving
      exact ih hs hstill hrest hq hstay

/-- A parked lease is over once a broadcast has been made, it has left the waiting room and it has
claimed a place, whatever happens in between, unless it expires before the first broadcast. -/
theorem InRun.ended_of_inTime (h : s.InRun pool) (hclosed : s.pool.books.closed = true)
    (htime : InTime l xs) {phase : Phase} (hphase : s.pool.phase? l = some phase)
    (hleaving : phase.Leaving 3) {failing : List ConnId} (hsteps : (stepsOf l failing 3).Sublist xs) :
    ∃ q, (s.after xs).pool.phase? l = some q ∧ q.Leaving 0 := by
  induction xs generalizing s phase with
  | nil => exact absurd (List.sublist_nil.1 hsteps) (List.cons_ne_nil _ _)
  | cons x xs ih =>
    have hs := h.happen x
    have hstill := (h.reachable.waning hclosed (h.turn_happen x).reaches).closed
    by_cases hx : x = .event (.pool .broadcast)
    · subst hx
      obtain ⟨q, hq, hwoken⟩ := h.leaving_of_broadcast hclosed hphase hleaving
      have hrest : (stepsOf l failing 2).Sublist xs := List.cons_sublist_cons.1 hsteps
      exact hs.ended_after hstill (Nat.le_succ 2) (fun _ => le_rfl)
        (fun hmem => absurd (.tail _ hmem) htime.waits) hq hwoken hrest
    · obtain ⟨hnever, hlater⟩ := htime.of_cons hx
      obtain ⟨q, hq, hstay⟩ := h.leaving_happen hclosed (fun hx => absurd (.inl hx) hnever)
        (fun hx => absurd (.inr hx) hnever) hphase hleaving
      refine ih hs hstill hlater hq hstay ?_
      rcases List.sublist_cons_iff.1 hsteps with hskip | ⟨rest, hfirst, -⟩
      · exact hskip
      · exact absurd (List.cons.inj hfirst).1.symm hx

/-! ## Attempts -/

/-- An attempt that comes later was under way before, or has a lease that was started since. -/
theorem InRun.attempt_or_later (h : s.InRun pool) (xs : List Happening)
    (ha : (s.after xs).attempt? i = some a) :
    s.attempt? i = some a ∨ s.pool.leases.length ≤ a.lease := by
  induction xs generalizing s with
  | nil => exact .inl ha
  | cons x xs ih =>
    have ht := h.happen x
    rcases ih ht ha with hunderWay | hlater
    · obtain ⟨call, hi, hattempt⟩ := attempt?_eq_some.1 hunderWay
      obtain ⟨k, hattempts⟩ := (h.turn_happen x).attempts h.linked
      rcases hattempts i call a hi hattempt with hcarried | ⟨-, hbegun⟩
      · exact .inl hcarried.attempt?_eq
      · exact .inr hbegun.lease_eq.ge
    · have hlength := (h.reachable.owning.continues (h.turn_happen x).reaches).leases.length_le
      simp only [List.length_map] at hlength
      exact .inr (hlength.trans hlater)

/-- After the shutdown, only an attempt that had a place at that moment is ever answered. -/
theorem InRun.exchanging_after (h : s.InRun pool) (hclosed : s.pool.books.closed = true)
    (xs : List Happening) (hi : (s.after xs).calls[i]? = some call) {reading : Reading}
    (hstage : call.stage = .exchanging a reading) :
    s.attempt? i = some a ∧ ∃ phase, s.pool.phase? a.lease = some phase ∧ phase.hasPlace = true := by
  obtain ⟨held, hheld⟩ := (h.after xs).linked.held i call a reading hi hstage
  have hwaning := h.reachable.waning hclosed (h.reaches xs)
  obtain ⟨before, hbefore, hplace⟩ := hwaning.hasPlace a.lease _ hheld rfl
  refine ⟨?_, before, hbefore, hplace⟩
  have hattempt : (s.after xs).attempt? i = some a := by
    rw [attempt?_of_call hi, hstage, Stage.attempt?]
  obtain ⟨lease, hl, -⟩ := Option.map_eq_some_iff.1 hbefore
  have hlength := (List.getElem?_eq_some_iff.1 hl).1
  exact (h.attempt_or_later xs hattempt).resolve_right (Nat.not_le.2 hlength)

/-- Where a call can stand after the shutdown that was at this attempt then. -/
inductive Winding (s : Service) (a : Attempt) : Stage → Prop
  | same {stage : Stage} (h : stage.attempt? = some a) : Winding s a stage
  | finished (result : Except ClientError Response) : Winding s a (.finished a.number result)
  /-- One attempt more, whose lease is going to find the pool closed. -/
  | retrying {b : Attempt} (hnumber : b.number = a.number + 1) {phase : Phase}
    (hphase : s.pool.phase? b.lease = some phase) (hrefused : phase.isRefused = true) :
    Winding s a (.leasing b)
  | refused : Winding s a (.finished (a.number + 1) (.error .poolClosed))
  | cancelled : Winding s a .cancelled

/-- An attempt whose lease finds the pool closed ends the call with that. -/
theorem Ends.of_refused (hends : s.Ends x e) (hi : s.calls[e.call]? = some call)
    (hstage : call.stage = .leasing b) {phase : Phase} (hphase : s.pool.phase? b.lease = some phase)
    (hrefused : phase.isRefused = true) : e.attempt = b ∧ e.outcome = .error .poolClosed := by
  cases hends with
  | @noLease i was a error hwas hleasing houtcome =>
    obtain rfl : call = was := Option.some.inj (hi.symm.trans hwas)
    obtain rfl : b = a := Stage.leasing.inj (hstage.symm.trans hleasing)
    rw [hphase, Option.bind_some] at houtcome
    refine ⟨rfl, ?_⟩
    unfold Phase.isRefused at hrefused
    split at hrefused
    · cases houtcome
    · obtain rfl : ClientError.poolClosed = error := by simpa [leaseOutcome?] using houtcome
      rfl
    · cases hrefused
  | answered hwas hexchanging | broken hwas hexchanging | late hwas hexchanging =>
    obtain rfl := Option.some.inj (hi.symm.trans hwas)
    rw [hstage] at hexchanging
    cases hexchanging

/-- From the attempt that was under way at the shutdown, the call goes on to its end or to one more
attempt. -/
theorem InRun.winding_of_attempt (h : s.InRun pool) (hi : s.calls[i]? = some call)
    (ha : call.stage.attempt? = some a) {next : Call} (hnext : (s.happen x).calls[i]? = some next)
    (hcourse : s.Course x i call next) : Winding (s.happen x) a next.stage := by
  cases hcourse with
  | stay => exact .same ha
  | exchange _ hb reading => exact .same (hb.symm.trans ha)
  | cancel => exact .cancelled
  | finish he hcall =>
    subst hcall
    obtain rfl : _ = a := Option.some.inj ((attempt_of_ending he hi).symm.trans ha)
    exact .finished _
  | retry he hcall hverdict l =>
    subst hcall
    obtain rfl : _ = a := Option.some.inj ((attempt_of_ending he hi).symm.trans ha)
    have hbegun := h.begun_of_ne hi ha hnext rfl (Nat.succ_ne_self _)
    exact .retrying rfl (System.phase?_of_lease hbegun.lease) rfl

/-- Where a call can stand whose attempt has a lease that is going to find the pool closed. -/
inductive Dismissed (s : Service) (b : Attempt) : Stage → Prop
  | leasing {phase : Phase} (hphase : s.pool.phase? b.lease = some phase)
    (hrefused : phase.isRefused = true) : Dismissed s b (.leasing b)
  | refused : Dismissed s b (.finished b.number (.error .poolClosed))
  | cancelled : Dismissed s b .cancelled

/-- From such an attempt the call goes on to its end. -/
theorem InRun.dismissed_of_leasing (h : s.InRun pool) (hclosed : s.pool.books.closed = true)
    (hi : s.calls[i]? = some call) (hstage : call.stage = .leasing b) {phase : Phase}
    (hphase : s.pool.phase? b.lease = some phase) (hrefused : phase.isRefused = true) {next : Call}
    (hnext : (s.happen x).calls[i]? = some next) (hcourse : s.Course x i call next) :
    Dismissed (s.happen x) b next.stage := by
  have hunderWay : call.stage.attempt? = some b := by rw [hstage, Stage.attempt?]
  have hstill (hb : next.stage.attempt? = some b) : ∃ q,
      (s.happen x).pool.phase? b.lease = some q ∧ q.isRefused = true :=
    h.reachable.isRefused hclosed (h.carried hnext hb hphase).spares hphase hrefused
  cases hcourse with
  | stay =>
    obtain ⟨q, hq, hqrefused⟩ := hstill hunderWay
    rw [hstage]
    exact .leasing hq hqrefused
  | exchange _ hb reading =>
    -- an exchange would need a lease that holds a connection
    obtain rfl := Option.some.inj (hb.symm.trans hunderWay)
    obtain ⟨q, hq, hqrefused⟩ := hstill rfl
    obtain ⟨held, hheld⟩ := (h.happen x).linked.held i _ _ reading hnext rfl
    rw [hheld, Option.some.injEq] at hq
    rw [← hq] at hqrefused
    cases hqrefused
  | cancel => exact .cancelled
  | finish he hcall hverdict =>
    subst hcall
    obtain ⟨rfl, houtcome⟩ := (ends_of_ending he).of_refused hi hstage hphase hrefused
    rw [houtcome] at hverdict
    rw [← Option.some.inj hverdict]
    exact .refused
  | retry he hcall hverdict =>
    subst hcall
    obtain ⟨-, houtcome⟩ := (ends_of_ending he).of_refused hi hstage hphase hrefused
    rw [houtcome] at hverdict
    cases hverdict

/-- A call that is dismissed stays so, however the run goes on. -/
theorem InRun.dismissed_after (h : s.InRun pool) (hclosed : s.pool.books.closed = true)
    (hi : s.calls[i]? = some call) (hd : Dismissed s b call.stage) (xs : List Happening) :
    ∃ next, (s.after xs).calls[i]? = some next ∧ Dismissed (s.after xs) b next.stage := by
  induction xs generalizing s call with
  | nil => exact ⟨call, hi, hd⟩
  | cons x xs ih =>
    obtain ⟨next, hnext, hcourse⟩ := (h.turn_happen x).course hi
    have hstill := (h.reachable.waning hclosed (h.turn_happen x).reaches).closed
    refine ih (h.happen x) hstill hnext ?_
    generalize hstage : call.stage = stage at hd
    have hover (hnone : stage.attempt? = none) : next.stage = stage := by
      rw [(hcourse.of_over hi (hstage ▸ hnone)).1, hstage]
    cases hd with
    | refused => exact hover rfl ▸ .refused
    | cancelled => exact hover rfl ▸ .cancelled
    | leasing hphase hrefused =>
      exact h.dismissed_of_leasing hclosed hi hstage hphase hrefused hnext hcourse

/-- A call that is dismissed in the attempt after `a` is winding up. -/
theorem Dismissed.winding {stage : Stage} (hd : Dismissed s b stage)
    (hnumber : b.number = a.number + 1) : Winding s a stage := by
  cases hd with
  | leasing hphase hrefused => exact .retrying hnumber hphase hrefused
  | refused => exact hnumber ▸ .refused
  | cancelled => exact .cancelled

/-- Every happening after the shutdown leaves the call on its way to the end. -/
theorem InRun.winding_happen (h : s.InRun pool) (hclosed : s.pool.books.closed = true)
    (hi : s.calls[i]? = some call) (hw : Winding s a call.stage) (x : Happening) :
    ∃ next, (s.happen x).calls[i]? = some next ∧ Winding (s.happen x) a next.stage := by
  obtain ⟨next, hnext, hcourse⟩ := (h.turn_happen x).course hi
  refine ⟨next, hnext, ?_⟩
  generalize hstage : call.stage = stage at hw
  have hover (hnone : stage.attempt? = none) : next.stage = stage := by
    rw [(hcourse.of_over hi (hstage ▸ hnone)).1, hstage]
  cases hw with
  | finished result => exact hover rfl ▸ .finished result
  | refused => exact hover rfl ▸ .refused
  | cancelled => exact hover rfl ▸ .cancelled
  | same ha => exact h.winding_of_attempt hi (hstage ▸ ha) hnext hcourse
  | retrying hnumber hphase hrefused =>
    exact (h.dismissed_of_leasing hclosed hi hstage hphase hrefused hnext hcourse).winding hnumber

/-- A call that is winding up stays so, however the run goes on. -/
theorem InRun.winding_after (h : s.InRun pool) (hclosed : s.pool.books.closed = true)
    (hi : s.calls[i]? = some call) (hw : Winding s a call.stage) (xs : List Happening) :
    ∃ next, (s.after xs).calls[i]? = some next ∧ Winding (s.after xs) a next.stage := by
  induction xs generalizing s call with
  | nil => exact ⟨call, hi, hw⟩
  | cons x xs ih =>
    obtain ⟨next, hnext, hwinding⟩ := h.winding_happen hclosed hi hw x
    have hstill := (h.reachable.waning hclosed (h.turn_happen x).reaches).closed
    exact ih (h.happen x) hstill hnext hwinding

/-! ## All of it -/

/-- What holds in a state `t` that the happenings `xs` make of a state `s` with a closed pool. -/
structure Final (s t : Service) (xs : List Happening) : Prop where
  closed : t.pool.books.closed = true
  noneIdle : t.pool.books.idleTotal = 0 ∧ ∀ e ∈ t.pool.books.routes, e.2.idle = []
  /-- A connection that is handed back is closed. -/
  release : ∀ l k keepAlive, t.pool.held? l = some k →
    (t.pool.step (.release l keepAlive)).Gone k.conn
  leasedTotal : ∀ ys, (t.after ys).pool.books.leasedTotal ≤ t.pool.books.leasedTotal
  /-- A lease that claims a place finds the pool closed and changes nothing else. -/
  claim : ∀ l failing, t.pool.phase? l = some .claiming →
    t.pool.step (.claim l failing) = t.pool.setPhase l (.ended .poolClosed)
  /-- A lease that is still parked is about to be woken. -/
  parked : ∀ l, t.pool.phase? l = some (.parked false) →
    0 < t.pool.owed ∧ (t.pool.step .broadcast).phase? l = some (.parked true)
  /-- A lease that has been woken is about to claim a place. -/
  woken : ∀ l, t.pool.phase? l = some (.parked true) →
    (t.pool.step (.resume l)).phase? l = some .claiming
  /-- A lease that was parked does nothing else, unless it expires before a broadcast is made. -/
  waiting : ∀ l woken, s.pool.phase? l = some (.parked woken) → InTime l xs →
    ∃ phase, t.pool.phase? l = some phase ∧ phase.Leaving 3
  /-- From the moment when it is woken, its deadline does nothing to it any more. -/
  leaving : ∀ l phase ys, t.pool.phase? l = some phase → phase.Leaving 2 →
    .aside (.expireWoken l) ∉ ys → ∃ later, (t.after ys).pool.phase? l = some later ∧ later.Leaving 2
  /-- When it has been woken and has claimed a place, it is over, whatever happens in between. -/
  ended : ∀ l phase failing ys, t.pool.phase? l = some phase → phase.Leaving 3 → InTime l ys →
    [.event (.pool .broadcast), .event (.pool (.resume l)),
      .event (.pool (.claim l failing))].Sublist ys →
    (t.after ys).pool.phase? l = some (.ended .poolClosed) ∨
      (t.after ys).pool.phase? l = some (.ended .cancelled)
  /-- Only an attempt that had a place is being answered. -/
  exchanging : ∀ i call a reading, t.calls[i]? = some call → call.stage = .exchanging a reading →
    s.attempt? i = some a ∧ ∃ phase, s.pool.phase? a.lease = some phase ∧ phase.hasPlace = true
  /-- A call that was under way is winding up. -/
  winding : ∀ i a, s.attempt? i = some a →
    ∃ call, t.calls[i]? = some call ∧ Winding t a call.stage
  /-- An attempt whose lease has found the pool closed is the last one, and has no other result. -/
  refused : ∀ i call b, t.calls[i]? = some call → call.stage = .leasing b →
    t.pool.phase? b.lease = some (.ended .poolClosed) →
    (t.happen (.event (.proceed i))).calls[i]? =
      some { call with stage := .finished b.number (.error .poolClosed) }
  /-- To shut down the pool again changes nothing in it. -/
  again : t.happen (.event (.pool .shutdown)) = t ∧
    t.happen (.event (.abandon true)) = { t with owned := false }

/-- In a closed pool, a connection that is handed back is closed. -/
theorem InRun.gone_of_release (h : s.InRun pool) (hclosed : s.pool.books.closed = true) {k : Held}
    (hheld : s.pool.held? l = some k) (keepAlive : Millis) :
    (s.pool.step (.release l keepAlive)).Gone k.conn := by
  unfold System.held? at hheld
  split at hheld
  case h_1 held hphase =>
    obtain rfl := Option.some.inj hheld
    obtain ⟨lease, hl, hlease⟩ := Option.map_eq_some_iff.1 hphase
    have hparting := h.reachable.owning.parting_release hl hlease keepAlive
    refine hparting.gone fun hkept => ?_
    rw [hclosed] at hkept
    cases hkept.1
  case h_2 => cases hheld

/-- A call that goes on after its lease has found the pool closed ends with that. -/
theorem proceed_of_poolClosed (hi : s.calls[i]? = some call) (hstage : call.stage = .leasing b)
    (hphase : s.pool.phase? b.lease = some (.ended .poolClosed)) :
    (s.happen (.event (.proceed i))).calls[i]? =
      some { call with stage := .finished b.number (.error .poolClosed) } := by
  have hends : s.Ends (.event (.proceed i)) ⟨i, call.request, b, none, .error .poolClosed⟩ :=
    .noLease hi hstage (by rw [hphase]; rfl)
  rw [happen_of_ends hends]
  exact getElem?_setStage_self (by rwa [calls_settle]) _

/-- What holds after any happenings in a closed pool. -/
theorem InRun.final (h : s.InRun pool) (hclosed : s.pool.books.closed = true) (xs : List Happening) :
    Final s (s.after xs) xs := by
  have ht := h.after xs
  have hstill := (h.reachable.waning hclosed (h.reaches xs)).closed
  have hagain : (s.after xs).pool.step .shutdown = (s.after xs).pool := if_pos hstill
  refine
    { closed := hstill
      noneIdle := ht.reachable.noneIdle hstill
      release := fun l k keepAlive hheld => ht.gone_of_release hstill hheld keepAlive
      leasedTotal := fun ys => (ht.reachable.waning hstill (ht.reaches ys)).leasedTotal_le
      claim := fun l failing hphase => System.claim_of_closed hstill hphase failing
      parked := fun l hphase => ?_
      woken := fun l hphase => System.phase?_resume hphase
      waiting := fun l woken hphase htime => ?_
      leaving := fun l phase ys hphase hleaving hwoken =>
        ht.leaving_after hstill (fun _ => Nat.le_refl 2) (fun hmem => absurd hmem hwoken) hphase
          hleaving
      ended := fun l phase failing ys hphase hleaving htime hsteps => ?_
      exchanging := fun i call a reading hi hstage => h.exchanging_after hclosed xs hi hstage
      winding := fun i a ha => ?_
      refused := fun i call b hi hstage hphase => proceed_of_poolClosed hi hstage hphase
      again := ⟨?_, ?_⟩ }
  · have howed := ht.reachable.owed_of_parked hstill hphase
    exact ⟨howed, System.phase?_broadcast howed.ne' hphase⟩
  · have hleaving : (Phase.parked woken).Leaving 3 := by
      cases woken with
      | false => exact .parked 0
      | true => exact .woken 1
    exact h.leaving_of_inTime hclosed htime hphase hleaving
  · obtain ⟨q, hq, hover⟩ := ht.ended_of_inTime hstill htime hphase hleaving hsteps
    cases hover with
    | closed => exact .inl hq
    | cancelled => exact .inr hq
  · obtain ⟨call, hi, hattempt⟩ := attempt?_eq_some.1 ha
    exact h.winding_after hclosed hi (.same hattempt) xs
  · simp [Service.happen, step, isReserved, inPool, hagain]
  · simp [Service.happen, step, inPool, hagain]

/-- The shutdown itself closes the pool, and leaves the leases and the calls where they are. -/
theorem happen_shutdown {stop : Happening}
    (hstop : stop = .event (.pool .shutdown) ∨ stop = .event (.abandon true)) :
    (s.happen stop).pool.books.closed = true ∧ (s.happen stop).calls = s.calls ∧
      (s.happen stop).pool.leases = s.pool.leases := by
  have hpool : (s.happen stop).pool = s.pool.step .shutdown ∧ (s.happen stop).calls = s.calls := by
    rcases hstop with rfl | rfl
    · simp [Service.happen, step, isReserved, inPool]
    · simp [Service.happen, step, inPool]
  refine ⟨?_, hpool.2, ?_⟩
  · rw [hpool.1, System.step]
    split
    case isTrue hclosed => exact hclosed
    case isFalse => rfl
  · rw [hpool.1, System.step]
    split <;> rfl

/-- Let a pool be shut down at any point of any run of it with any clients, by a request or because its
manager goes away. The shutdown leaves leases and calls where they are, and from then on, after any
happenings, all of `Final` holds. -/
theorem shutdown_is_final (settings : Settings) (pool : PoolSettings) (before later : List Happening)
    (stop : Happening) (hstop : stop = .event (.pool .shutdown) ∨ stop = .event (.abandon true)) :
    let s := (init settings pool).after before
    let u := s.happen stop
    u.calls = s.calls ∧ u.pool.leases = s.pool.leases ∧ Final u (u.after later) later := by
  intro s u
  have hrun : s.InRun pool := (inRun_init settings pool).after before
  obtain ⟨hclosed, hcalls, hleases⟩ := happen_shutdown (s := s) hstop
  exact ⟨hcalls, hleases, (hrun.happen stop).final hclosed later⟩

/-- The manager goes away during an exchange, which then fails: the attempt after it finds the pool
closed. So does a lease that waits meanwhile, although its deadline passes before it goes on. -/
theorem shutdown_is_final_during_exchange :
    let request : Request :=
      ⟨.get, ⟨some ['h', 't', 't', 'p'], some ['h'], ['/'], none⟩, .http11, ⟨[]⟩, []⟩
    let s := (init ⟨⟨true, none, none, none⟩, ⟨3⟩, .standard⟩ ⟨1, 1, .standard⟩).after
      [.event (.submit request), .event (.pool (.claim 0 [])), .event (.pool (.connected 0)),
        .event (.proceed 0), .event (.pool (.start ⟨.http, ['h'], 80⟩ (some 10))),
        .event (.pool (.claim 1 []))]
    let t := (s.happen (.event (.abandon true))).after [.event (.arrive 0 (.fault .incomplete))]
    let u := t.after [.event (.pool .broadcast), .event (.pool (.tick 10)),
      .event (.pool (.expire 1)), .event (.pool (.resume 1)), .event (.pool (.claim 1 []))]
    t.attempt? 0 = some ⟨⟨.http, ['h'], 80⟩, 2, 2⟩ ∧
      t.pool.step (.claim 2 []) = t.pool.setPhase 2 (.ended .poolClosed) ∧
      t.pool.phase? 1 = some (.parked false) ∧ u.pool.now = 10 ∧
      u.pool.phase? 1 = some (.ended .poolClosed) := by
  intro request s t u
  obtain ⟨-, -, hfinal⟩ := shutdown_is_final _ _ _ [.event (.arrive 0 (.fault .incomplete))]
    (.event (.abandon true)) (.inr rfl)
  have hparked : t.pool.phase? 1 = some (.parked false) := by decide
  have htime : InTime 1 [.event (.pool .broadcast), .event (.pool (.tick 10)),
      .event (.pool (.expire 1)), .event (.pool (.resume 1)), .event (.pool (.claim 1 []))] := by
    refine ⟨by simp, fun before rest hsplit => ?_⟩
    -- the broadcast comes first, and it is not the expiry
    cases before with
    | nil => cases hsplit
    | cons x before => exact (List.cons.inj hsplit).1 ▸ List.mem_cons_self
  have hover := hfinal.ended 1 _ [] _ hparked (.parked 0) htime (by simp)
  have hkept : u.pool.phase? 1 ≠ some (.ended .cancelled) := by decide
  exact ⟨by decide, hfinal.claim 2 [] (by decide), hparked, by decide, hover.resolve_right hkept⟩

end PooledHttp.Client.Service
