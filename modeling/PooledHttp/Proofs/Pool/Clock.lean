import PooledHttp.Proofs.Pool.Histories

/-!
# The clock of a pool

Only a tick moves the clock, apart from the aside that sets it to any time. A tick does not pass the
deadline of a parked lease, because the timer of that lease is due then and is served first
(`System.KeepsTime`).
-/

set_option autoImplicit false

namespace PooledHttp.Pool.System

variable {s t : System} {l : LeaseId} {lease : Lease}

/-- The clock stands still, or goes on without passing the deadline of a parked lease. -/
def KeepsTime (s t : System) : Prop :=
  t.now = s.now ∨ s.now ≤ t.now ∧ s.mayPass t.now = true

/-- A clock that keeps time does not go back. -/
theorem KeepsTime.le (h : KeepsTime s t) : s.now ≤ t.now := by
  rcases h with hsame | ⟨hle, -⟩
  · exact hsame.ge
  · exact hle

/-- A time that the clock may pass to is no later than the deadline of any parked lease. -/
theorem le_deadline_of_mayPass {time deadline : Millis} (h : s.mayPass time = true)
    (hl : s.leases[l]? = some lease) (hparked : lease.phase.isParked = true)
    (hdeadline : lease.deadline = some deadline) : time ≤ deadline := by
  have hlease := List.all_eq_true.1 h lease (List.mem_of_getElem? hl)
  cases hphase : lease.phase with
  | parked woken => simpa [hphase, hdeadline] using hlease
  | claiming | readying | connecting | held | ended =>
    rw [hphase] at hparked
    cases hparked

/-- A claim takes no time. -/
theorem now_claim (failing : List ConnId) : (s.claim l lease failing).now = s.now := by
  obtain ⟨connections, -, hafter⟩ := foldl_closeConnection (s := s) failing
  cases hclosed : s.books.closed with
  | true =>
    rw [claim, if_pos hclosed]
    rfl
  | false =>
    obtain ⟨outcome, books, hclaim⟩ : ∃ outcome books, s.books.claim s.settings s.live
        (failing.foldl closeConnection s).live s.now lease.route = (outcome, books) := ⟨_, _, rfl⟩
    rw [claim_eq hclosed hclaim, hafter]
    rfl

/-- What a lease does takes no time. -/
theorem now_stepLease (e : Event) : (s.stepLease l lease e).now = s.now := by
  cases e with
  | claim m failing =>
    simp only [stepLease]
    split
    · exact now_claim failing
    · rfl
  | ready | unready | connected | refused | resume | expire | release | drop =>
    simp only [stepLease]
    split <;> rfl
  | cancel =>
    show (s.cancel l lease).now = s.now
    unfold cancel
    split <;> rfl
  | start | broadcast | broadcastRemoval | closed | tick | closeExpired | closeIdle | shutdown => rfl

/-- Of the events, only ticks move the clock. -/
theorem now_step {e : Event} (he : ∀ time, e ≠ .tick time) : (s.step e).now = s.now := by
  cases hl : e.lease? with
  | some l =>
    rw [step_lease hl]
    cases s.leases[l]? with
    | none => rfl
    | some lease => exact now_stepLease e
  | none =>
    cases e with
    | tick time => exact absurd rfl (he time)
    | broadcast | broadcastRemoval | shutdown =>
      simp only [step]
      split <;> rfl
    | start | closed | closeExpired | closeIdle => rfl
    | claim | ready | unready | connected | refused | resume | expire | cancel | release | drop =>
      cases hl

/-- Every event keeps time. -/
theorem keepsTime_step (s : System) (e : Event) : KeepsTime s (s.step e) := by
  by_cases htick : ∃ time, e = .tick time
  · obtain ⟨time, rfl⟩ := htick
    simp only [step]
    split
    case isTrue hpasses => exact .inr ⟨Nat.le_add_right _ _, hpasses⟩
    case isFalse => exact .inl rfl
  · exact .inl (now_step (not_exists.1 htick))

/-- Of the asides, only that which sets the clock moves it. -/
theorem now_aside {a : Aside} (ha : ∀ time, a ≠ .clock time) : (s.aside a).now = s.now := by
  cases a with
  | clock time => exact absurd rfl (ha time)
  | evict => rfl
  | reorder | wakeEarly =>
    simp only [aside]
    split <;> rfl
  | expireWoken =>
    simp only [aside]
    split
    · split <;> rfl
    · rfl

end PooledHttp.Pool.System
