import Mathlib.Order.Lattice.Nat
import PooledHttp.Proofs.Client.Holding

/-!
# How many attempts a request takes

`RetryPolicy.Decides` says, without reference to the loop, which outcome of an attempt is the result
of the request. The first attempt that decides is the last one that is made, in the loop on its own
(`RetryPolicy.run_of_isLeast`) as well as in every run of a pool with clients
(`Client.Service.attempts_up_to_deciding`), whatever else goes on there. Since an attempt at the
ceiling decides, the counter never gets past it.
-/

set_option autoImplicit false

namespace PooledHttp

/-- A request is not idempotent exactly if its method is one of three or it has a body. -/
theorem Request.isIdempotent_eq_false_iff {r : Request} : r.isIdempotent = false ↔
    r.method = .post ∨ r.method = .put ∨ r.method = .patch ∨ r.body ≠ [] := by
  have hbody : r.body.isEmpty = false ↔ r.body ≠ [] := by simp
  simp only [isIdempotent, Method.enclosesBody, Bool.and_eq_false_iff, hbody]
  simp only [Bool.not_eq_false', Bool.or_eq_true, beq_iff_eq, or_assoc]

namespace RetryPolicy

/-- Whether attempt number `n` with this outcome is the last one of the request. -/
def Decides (policy : RetryPolicy) (request : Request) (n : Nat) :
    Except ClientError Response → Prop
  | .error (.transport e) => n = policy.maxAttempts ∨ e.kind.isTransient = false ∧
    (request.method = .post ∨ request.method = .put ∨ request.method = .patch ∨ request.body ≠ [])
  | .ok _ | .error (.invalidRequest _) | .error .poolClosed | .error (.config _) => True

/-- Whether an attempt decides can be computed. -/
instance (policy : RetryPolicy) (request : Request) (n : Nat) :
    DecidablePred (policy.Decides request n)
  | .error (.transport _) => inferInstanceAs (Decidable (_ ∨ _))
  | .ok _ | .error (.invalidRequest _) | .error .poolClosed | .error (.config _) => .isTrue trivial

variable {policy : RetryPolicy} {request : Request} {n k : Nat}
  {outcome : Except ClientError Response}

/-- Below the ceiling, the failures after which the policy tries again are the transient ones, and
the others when the request may be repeated. -/
theorem allows_eq (kind : TransportKind) (attempt : Nat) (idempotent : Bool) :
    policy.allows kind attempt idempotent =
      (decide (attempt < policy.maxAttempts) && (kind.isTransient || idempotent)) := by
  unfold allows
  split
  case isTrue h => simp [Nat.not_lt.2 h]
  case isFalse h => cases kind <;> simp [TransportKind.isTransient, Nat.not_le.1 h]

/-- The result of an attempt is its outcome. -/
theorem eq_of_verdict {idempotent : Bool} {result : Except ClientError Response}
    (h : policy.verdict idempotent n outcome = some result) : result = outcome := by
  unfold verdict at h
  split at h
  case h_1 =>
    split at h
    case isTrue => cases h
    case isFalse => exact (Option.some.inj h).symm
  case h_2 => exact (Option.some.inj h).symm

/-- An outcome that decides is the result. -/
theorem verdict_of_decides (h : policy.Decides request n outcome) :
    policy.verdict request.isIdempotent n outcome = some outcome := by
  unfold verdict
  split
  case h_2 => rfl
  case h_1 e =>
    have hstop : policy.allows e.kind n request.isIdempotent = false := by
      rw [allows_eq]
      rcases h with rfl | ⟨hkind, hrequest⟩
      · simp
      · rw [hkind, Request.isIdempotent_eq_false_iff.2 hrequest]
        simp
    rw [hstop]
    rfl

/-- After any other there is another attempt. -/
theorem verdict_of_not_decides (hn : n ≤ policy.maxAttempts)
    (h : ¬ policy.Decides request n outcome) :
    policy.verdict request.isIdempotent n outcome = none := by
  unfold verdict
  split
  case h_2 hother =>
    refine absurd ?_ h
    match outcome with
    | .error (.transport e) => exact absurd rfl (hother e)
    | .ok _ | .error (.invalidRequest _) | .error .poolClosed | .error (.config _) => trivial
  case h_1 e =>
    have hgo : policy.allows e.kind n request.isIdempotent = true := by
      simp only [Decides, not_or, not_and] at h
      obtain ⟨hne, hkind⟩ := h
      rw [allows_eq, Bool.and_eq_true, decide_eq_true_eq]
      refine ⟨lt_of_le_of_ne hn hne, ?_⟩
      cases htransient : e.kind.isTransient with
      | true => rfl
      | false =>
        have hrepeat : request.isIdempotent ≠ false := by
          rw [Ne, Request.isIdempotent_eq_false_iff]
          simpa using hkind htransient
        simpa using hrepeat
    rw [hgo]
    rfl

/-- An attempt after which the policy stops decides, and its outcome is the result. -/
theorem decides_of_verdict {result : Except ClientError Response} (hn : n ≤ policy.maxAttempts)
    (h : policy.verdict request.isIdempotent n outcome = some result) :
    policy.Decides request n outcome ∧ result = outcome := by
  refine ⟨?_, eq_of_verdict h⟩
  by_contra hnot
  rw [verdict_of_not_decides hn hnot] at h
  cases h

/-- An attempt after which the policy goes on does not decide. -/
theorem not_decides_of_verdict (h : policy.verdict request.isIdempotent n outcome = none) :
    ¬ policy.Decides request n outcome := by
  intro hdecides
  rw [verdict_of_decides hdecides] at h
  cases h

/-- The attempts that decide, when each comes to what `outcomes` says. -/
def Deciding (policy : RetryPolicy) (request : Request)
    (outcomes : Nat → Except ClientError Response) : Set Nat :=
  {n | 1 ≤ n ∧ policy.Decides request n (outcomes n)}

variable {outcomes : Nat → Except ClientError Response}

/-- There is a first attempt that decides, at the ceiling at the latest. -/
theorem exists_isLeast_deciding (hmin : 1 ≤ policy.maxAttempts) (request : Request)
    (outcomes : Nat → Except ClientError Response) :
    ∃ k, IsLeast (policy.Deciding request outcomes) k ∧ k ≤ policy.maxAttempts := by
  have hlast : policy.maxAttempts ∈ policy.Deciding request outcomes := by
    refine ⟨hmin, ?_⟩
    match outcomes policy.maxAttempts with
    | .error (.transport e) => exact .inl rfl
    | .ok _ | .error (.invalidRequest _) | .error .poolClosed | .error (.config _) => trivial
  exact ⟨sInf (policy.Deciding request outcomes),
    ⟨Nat.sInf_mem ⟨_, hlast⟩, fun n hn => Nat.sInf_le hn⟩, Nat.sInf_le hlast⟩

/-- The loop stops at the first attempt that decides, and gives its outcome. -/
theorem run_of_isLeast (hk : IsLeast (policy.Deciding request outcomes) k)
    (hmax : k ≤ policy.maxAttempts) (hn : 1 ≤ n) (hnk : n ≤ k) :
    policy.run request.isIdempotent outcomes n = (k, outcomes k) := by
  induction hrest : k - n generalizing n with
  | zero =>
    obtain rfl : n = k := by omega
    rw [run, verdict_of_decides hk.1.2]
  | succ rest ih =>
    have hlt : n < k := by omega
    have hnot : ¬ policy.Decides request n (outcomes n) := fun h =>
      Nat.not_le.2 hlt (hk.2 ⟨hn, h⟩)
    rw [run, verdict_of_not_decides (hnk.trans hmax) hnot, if_pos (hlt.trans_le hmax)]
    exact ih (by omega) (by omega) (by omega)

end RetryPolicy

namespace Client.Service

open Pool

variable {s t : Service} {x : Happening} {i : CallId} {call : Call} {a : Attempt}
  {pool : PoolSettings}

/-- What the attempts of a call come to, one after the other. -/
def outcomes (s : Service) (i : CallId) : List Happening → List (Except ClientError Response)
  | [] => []
  | x :: xs => (((s.ending? x).filter fun e => e.call == i).map Ending.outcome).toList ++
    (s.happen x).outcomes i xs

/-- A happening that ends no attempt of the call adds no outcome. -/
theorem outcomes_cons_of_ne (hne : ∀ e, s.ending? x = some e → e.call ≠ i) (xs : List Happening) :
    s.outcomes i (x :: xs) = (s.happen x).outcomes i xs := by
  cases he : s.ending? x with
  | none => simp [outcomes, he]
  | some e => simp [outcomes, he, hne e he]

/-- A happening that ends an attempt of the call adds its outcome. -/
theorem outcomes_cons_of_ending {e : Ending} (he : s.ending? x = some e) (hi : e.call = i)
    (xs : List Happening) : s.outcomes i (x :: xs) = e.outcome :: (s.happen x).outcomes i xs := by
  subst hi
  simp [outcomes, he, Option.filter]

/-- A call that is over stays as it is, and no attempt is made for it any more. -/
theorem InRun.over (h : s.InRun pool) (hi : s.calls[i]? = some call)
    (hover : call.stage.attempt? = none) (xs : List Happening) :
    (s.after xs).calls[i]? = some call ∧ s.outcomes i xs = [] := by
  induction xs generalizing s with
  | nil => exact ⟨hi, rfl⟩
  | cons x xs ih =>
    obtain ⟨next, hnext, hcourse⟩ := (h.turn_happen x).course hi
    obtain ⟨rfl, hnone⟩ := hcourse.of_over hi hover
    rw [outcomes_cons_of_ne hnone]
    exact ih (h.happen x) hnext

/-- Where a call stands when `made` of its attempts have come to an end and number `k` is the first
to decide. -/
structure Standing (outcome : Nat → Except ClientError Response) (k made : Nat) (stage : Stage) :
    Prop where
  le : made ≤ k
  finished : made = k → stage = .finished k (outcome k)
  underWay : made < k → stage = .cancelled ∨ ∃ a, stage.attempt? = some a ∧ a.number = made + 1

/-- A call that stands at its attempt number `made + 1` goes on to the first attempt that decides. -/
theorem InRun.standing (h : s.InRun pool) {policy : RetryPolicy} (hpolicy : s.settings.retry = policy)
    {request : Request} {outcome : Nat → Except ClientError Response} {k made : Nat}
    (hk : IsLeast (policy.Deciding request outcome) k) (hmax : k ≤ policy.maxAttempts)
    (hi : s.calls[i]? = some call) (hrequest : call.request = request)
    (ha : call.stage.attempt? = some a)
    (hnumber : a.number = made + 1) (hmade : made < k) (xs : List Happening)
    (hagree : ∀ n r, (s.outcomes i xs)[n]? = some r → r = outcome (made + 1 + n)) :
    ∃ next, (s.after xs).calls[i]? = some next ∧
      Standing outcome k (made + (s.outcomes i xs).length) next.stage := by
  induction xs generalizing s call a made with
  | nil =>
    exact ⟨call, hi, hmade.le, fun hlast => absurd hlast hmade.ne,
      fun _ => .inr ⟨a, ha, hnumber⟩⟩
  | cons x xs ih =>
    have hs := h.happen x
    have hpolicy' : (s.happen x).settings.retry = policy := by
      rw [(h.turn_happen x).settings, hpolicy]
    obtain ⟨next, hnext, hcourse⟩ := (h.turn_happen x).course hi
    cases hcourse with
    -- as long as the attempt is under way there is nothing to count
    | stay hnone =>
      rw [outcomes_cons_of_ne hnone] at hagree ⊢
      exact ih hs hpolicy' hnext hrequest ha hnumber hmade hagree
    | @exchange hnone b hb reading =>
      rw [outcomes_cons_of_ne (by simp [hnone])] at hagree ⊢
      obtain rfl : a = b := Option.some.inj (ha.symm.trans hb)
      exact ih hs hpolicy' hnext hrequest rfl hnumber hmade hagree
    | cancel hnone hb =>
      obtain ⟨hafter, hnoMore⟩ := hs.over hnext rfl xs
      rw [outcomes_cons_of_ne (by simp [hnone]), hnoMore]
      exact ⟨_, hafter, hmade.le, fun hlast => absurd hlast hmade.ne, fun _ => .inl rfl⟩
    | @finish e he hcall result hverdict =>
      subst hcall
      obtain rfl : a = e.attempt := Option.some.inj (ha.symm.trans (attempt_of_ending he hi))
      rw [outcomes_cons_of_ending he rfl] at hagree ⊢
      have houtcome : e.outcome = outcome (made + 1) := hagree 0 _ rfl
      obtain ⟨hafter, hnoMore⟩ := hs.over hnext rfl xs
      rw [hpolicy, hrequest, hnumber, houtcome] at hverdict
      -- the verdict is a result, so the attempt decides: it is number `k`
      obtain ⟨hdecides, rfl⟩ := RetryPolicy.decides_of_verdict (hmade.trans_le hmax) hverdict
      have hlast : made + 1 = k := Nat.le_antisymm hmade (hk.2 ⟨Nat.le_add_left _ _, hdecides⟩)
      refine ⟨_, hafter, ?_⟩
      rw [hnoMore, hnumber, hlast]
      exact ⟨hlast.le, fun _ => rfl, fun hless => absurd hlast hless.ne⟩
    | @retry e he hcall hverdict l =>
      subst hcall
      obtain rfl : a = e.attempt := Option.some.inj (ha.symm.trans (attempt_of_ending he hi))
      rw [outcomes_cons_of_ending he rfl] at hagree ⊢
      have houtcome : e.outcome = outcome (made + 1) := hagree 0 _ rfl
      rw [hpolicy, hrequest, hnumber, houtcome] at hverdict
      -- there is another attempt, so this one does not decide and `k` is still to come
      have hnot := RetryPolicy.not_decides_of_verdict hverdict
      have hless : made + 1 < k := by
        refine lt_of_le_of_ne hmade ?_
        rintro rfl
        exact hnot hk.1.2
      obtain ⟨last, hafter, hlast⟩ := ih hs hpolicy' hnext hrequest rfl (congrArg (· + 1) hnumber)
        hless fun n r hr => by
          have hshift : made + 1 + (n + 1) = made + 1 + 1 + n := by omega
          rw [hagree (n + 1) r hr, hshift]
      refine ⟨last, hafter, ?_⟩
      rwa [List.length_cons, Nat.add_comm _ 1, ← Nat.add_assoc]

/-- A request that can be sent gets its first attempt. -/
theorem submit_accepted {request : Request} {route : Route} {wire : WireRequest}
    (hpool : s.hasPool = true) (hroute : Route.ofUri request.uri = .ok route)
    (hprep : request.prepare s.settings.request.expectContinue route = .ok wire) :
    (s.happen (.event (.submit request))).calls[s.calls.length]? =
      some ⟨request, .leasing ⟨route, 1, s.pool.leases.length⟩⟩ := by
  have hcalls : (s.happen (.event (.submit request))).calls =
      s.calls ++ [⟨request, .leasing ⟨route, 1, s.pool.leases.length⟩⟩] := by
    simp [happen, step, submit, hpool, hroute, begin, hprep, inPool]
  rw [hcalls, List.getElem?_concat_length]

/-- Let a request's attempts come to any outcomes. There is a first attempt `k` that decides: it came to
a response or to a failure other than of transport, or it is the last one allowed, or its failure is
not transient and the request may not be repeated. The loop makes `k` attempts and gives the outcome
of the last. So does every run in which the request is accepted, whatever else happens: the call is
over when its attempt number `k` is, with this outcome; until then it is at the attempt after those
that have failed, unless it is cancelled. The numbers of attempts fit a word of 32 bits as the ceiling
does. -/
theorem attempts_up_to_deciding (settings : Settings) (pool : PoolSettings)
    (hmin : 1 ≤ settings.retry.maxAttempts) (hmax : settings.retry.maxAttempts < 2 ^ 32)
    (request : Request) (outcome : Nat → Except ClientError Response) :
    ∃ k, IsLeast {n | 1 ≤ n ∧ settings.retry.Decides request n (outcome n)} k ∧
      k ≤ settings.retry.maxAttempts ∧ k < 2 ^ 32 ∧
      settings.retry.run request.isIdempotent outcome 1 = (k, outcome k) ∧
      ∀ (before later : List Happening) (route : Route) (wire : WireRequest),
        let s := (init settings pool).after before
        let t := s.happen (.event (.submit request))
        let outs := t.outcomes s.calls.length later
        s.hasPool = true → Route.ofUri request.uri = .ok route →
        request.prepare settings.request.expectContinue route = .ok wire →
        (∀ n r, outs[n]? = some r → r = outcome (n + 1)) →
        ∃ call, (t.after later).calls[s.calls.length]? = some call ∧
          Standing outcome k outs.length call.stage := by
  obtain ⟨k, hk, hceiling⟩ := RetryPolicy.exists_isLeast_deciding hmin request outcome
  refine ⟨k, hk, hceiling, hceiling.trans_lt hmax,
    RetryPolicy.run_of_isLeast hk hceiling (Nat.le_refl 1) hk.1.1, ?_⟩
  intro before later route wire s t outs hpool hroute hprep hagree
  have hrun : s.InRun pool := (inRun_init settings pool).after before
  have hsettings : s.settings = settings := (inRun_init settings pool).settings_after before
  have hpolicy : t.settings.retry = settings.retry := by
    rw [(hrun.turn_happen _).settings, hsettings]
  rw [← hsettings] at hprep
  have hfirst := submit_accepted hpool hroute hprep
  obtain ⟨call, hcall, hstanding⟩ := (hrun.happen _).standing hpolicy hk hceiling hfirst rfl rfl rfl
    hk.1.1 later fun n r hr => by rw [Nat.zero_add, Nat.add_comm]; exact hagree n r hr
  exact ⟨call, hcall, by rwa [Nat.zero_add] at hstanding⟩

/-- The server hangs up on the first attempt and answers the second one. -/
theorem attempts_up_to_deciding_second :
    let settings : Settings := ⟨⟨true, none, none, none⟩, ⟨3⟩, .standard⟩
    let request : Request :=
      ⟨.post, ⟨some ['h', 't', 't', 'p'], some ['h'], ['/'], none⟩, .http11, ⟨[]⟩, []⟩
    let t := (init settings ⟨1, 1, .standard⟩).happen (.event (.submit request))
    let later : List Happening :=
      [.event (.pool (.claim 0 [])), .event (.pool (.connected 0)), .event (.proceed 0),
        .event (.arrive 0 (.fault .incomplete)), .event (.pool (.claim 1 [])),
        .event (.pool (.connected 1)), .event (.proceed 0), .event (.arrive 0 (.head ⟨200, ⟨[]⟩⟩)),
        .event (.arrive 0 .finished)]
    ∃ call, (t.after later).calls[0]? = some call ∧
      call.stage = .finished 2 (.ok ⟨⟨200, ⟨[]⟩⟩, []⟩) := by
  intro settings request t later
  let outcome (n : Nat) := ((t.outcomes 0 later)[n - 1]?).getD (.error .poolClosed)
  have hagree (n : Nat) (r : Except ClientError Response) (hr : (t.outcomes 0 later)[n]? = some r) :
      r = outcome (n + 1) := by
    simp only [outcome, Nat.add_sub_cancel, hr, Option.getD_some]
  obtain ⟨k, hk, -, -, -, hruns⟩ := attempts_up_to_deciding settings ⟨1, 1, .standard⟩
    (by decide) (by decide) request outcome
  have hmade : (t.outcomes 0 later).length = 2 := by decide
  have hanswer : (t.outcomes 0 later)[1]? = some (.ok ⟨⟨200, ⟨[]⟩⟩, []⟩) := by decide
  have hsecond : outcome 2 = .ok ⟨⟨200, ⟨[]⟩⟩, []⟩ := (hagree 1 _ hanswer).symm
  have hleast : k ≤ 2 := hk.2 ⟨by decide, by rw [hsecond]; decide⟩
  obtain ⟨call, hcall, hstanding⟩ := hruns [] later ⟨.http, ['h'], 80⟩
    ⟨.post, ['/'], .http11, ⟨[(hostName, ['h'])]⟩, []⟩ rfl rfl rfl hagree
  have hle : 2 ≤ k := hmade ▸ hstanding.le
  obtain rfl : k = 2 := Nat.le_antisymm hleast hle
  exact ⟨call, hcall, hsecond ▸ hstanding.finished hmade⟩

end Client.Service
end PooledHttp
