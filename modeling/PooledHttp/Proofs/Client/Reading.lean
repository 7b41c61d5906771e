import PooledHttp.Client.Reading

/-!
# What a response comes to

A response arrives as a head, parts of a body, and its end, or a fault at any point
(`Reading.IsAnswer`). `Reading.ComesTo` says what becomes of it under a time limit, without reference
to how it is collected: the first arrival that is a fault or does not come in time decides, and when
there is none the response is whole. The limit bounds each wait and not the whole of them, so the
delays may add up to any time. `Reading.run_of_comesTo` says that collecting the response as it
arrives comes to the same.
-/

set_option autoImplicit false

namespace PooledHttp

namespace TransportKind

variable {kind : IoKind}

/-- An i/o failure on a connection is a timeout, an interruption or of no particular kind. -/
theorem ofIo_cases (kind : IoKind) :
    kind = .timedOut ∧ ofIo kind = .socketTimeout ∨ kind = .interrupted ∧ ofIo kind = .interrupted ∨
      (kind ≠ .timedOut ∧ kind ≠ .interrupted) ∧ ofIo kind = .io := by
  cases kind <;> decide

end TransportKind

namespace ConnectionFault

/-- The four kinds that a fault on a connection can have. A request that is left without an answer has
had no response; a connection that gave up waiting, or an i/o failure that is a timeout, is a socket
timeout; an i/o failure that is an interruption is one; and all else is an i/o failure. -/
inductive IsOfKind (fault : ConnectionFault) : TransportKind → Prop
  | noResponse (h : fault = .incomplete ∨ fault = .canceled) : IsOfKind fault .noResponse
  | socketTimeout (h : fault = .expired ∨ fault.ioKind? = some .timedOut) :
    IsOfKind fault .socketTimeout
  | interrupted (h : fault.ioKind? = some .interrupted) : IsOfKind fault .interrupted
  | io (h : fault ≠ .incomplete ∧ fault ≠ .canceled ∧ fault ≠ .expired)
    (hio : ∀ kind ∈ fault.ioKind?, kind ≠ .timedOut ∧ kind ≠ .interrupted) : IsOfKind fault .io

/-- A fault is classified in one way only, which is its kind. -/
theorem kind_eq_iff {fault : ConnectionFault} {kind : TransportKind} :
    fault.kind = kind ↔ fault.IsOfKind kind := by
  constructor
  · rintro rfl
    cases fault with
    | incomplete => exact .noResponse (.inl rfl)
    | canceled => exact .noResponse (.inr rfl)
    | expired => exact .socketTimeout (.inl rfl)
    | closed | garbled => exact .io (by simp) (by simp [ioKind?])
    | broken io | bodyBroken io =>
      show IsOfKind _ (TransportKind.ofIo io)
      rcases TransportKind.ofIo_cases io with ⟨rfl, hkind⟩ | ⟨rfl, hkind⟩ | ⟨hother, hkind⟩
      · exact hkind ▸ .socketTimeout (.inr rfl)
      · exact hkind ▸ .interrupted rfl
      · exact hkind ▸ .io (by simp) (by simpa [ioKind?] using hother)
  · intro h
    cases h with
    | noResponse h => rcases h with rfl | rfl <;> rfl
    | socketTimeout h =>
      rcases h with rfl | h
      · rfl
      · cases fault <;> cases h <;> rfl
    | interrupted h => cases fault <;> cases h <;> rfl
    | io h hio =>
      cases fault with
      | incomplete => exact absurd rfl h.1
      | canceled => exact absurd rfl h.2.1
      | expired => exact absurd rfl h.2.2
      | closed | garbled => rfl
      | broken io | bodyBroken io =>
        obtain ⟨htimedOut, hinterrupted⟩ := hio io rfl
        rcases TransportKind.ofIo_cases io with ⟨heq, -⟩ | ⟨heq, -⟩ | ⟨-, hkind⟩
        · exact absurd heq htimedOut
        · exact absurd heq hinterrupted
        · exact hkind

end ConnectionFault

namespace Arrival

/-- The part of the body that arrives. -/
def bytes : Arrival → Bytes
  | .data bytes => bytes
  | .head _ | .trailer | .finished | .fault _ => []

/-- Whether a part of a response arrives that comes after its head and before its end. -/
def isPart : Arrival → Bool
  | .data _ | .trailer => true
  | .head _ | .finished | .fault _ => false

/-- Whether a response ends with this. -/
def isEnd : Arrival → Bool
  | .finished | .fault _ => true
  | .head _ | .data _ | .trailer => false

/-- Whether an error arrives. -/
def isFault : Arrival → Bool
  | .fault _ => true
  | .head _ | .data _ | .trailer | .finished => false

end Arrival

namespace Reading

/-- The arrivals on a connection, each with its delay after the one before it: a head, any parts, and
an end; or a fault in place of a head. -/
inductive IsAnswer : List (Millis × Arrival) → Prop
  | response (delay : Millis) (head : ResponseHead) (parts : List (Millis × Arrival))
    (hparts : ∀ p ∈ parts, p.2.isPart = true) (last : Millis × Arrival)
    (hlast : last.2.isEnd = true) : IsAnswer ((delay, .head head) :: (parts ++ [last]))
  | fault (delay : Millis) (f : ConnectionFault) : IsAnswer [(delay, .fault f)]

/-- The time that all arrivals take. -/
def span : List (Millis × Arrival) → Millis
  | [] => 0
  | (delay, _) :: later => delay + span later

/-- All data that arrive. -/
def content (arrivals : List (Millis × Arrival)) : Bytes := arrivals.flatMap (·.2.bytes)

/-- Whether the delay is less than the time limit, if there is one. -/
def InTime (limit : Option Millis) (delay : Millis) : Prop := ∀ t ∈ limit, delay < t

/-- Whether a delay is in time can be computed. -/
instance (limit : Option Millis) : DecidablePred (InTime limit) := fun _ =>
  inferInstanceAs (Decidable (∀ _ ∈ limit, _))

/-- Nothing is wrong with an arrival. -/
def IsFine (limit : Option Millis) (p : Millis × Arrival) : Prop :=
  InTime limit p.1 ∧ p.2.isFault = false

/-- Whether nothing is wrong with an arrival can be computed. -/
instance (limit : Option Millis) : DecidablePred (IsFine limit) := fun _ =>
  inferInstanceAs (Decidable (_ ∧ _))

/-- What an exchange on a route comes to under a time limit, and how long after its beginning. -/
inductive ComesTo (limit : Option Millis) (route : String) (arrivals : List (Millis × Arrival)) :
    Except TransportError Response → Millis → Prop
  /-- The whole response has come, with all its data. -/
  | whole {delay : Millis} {head : ResponseHead} {rest : List (Millis × Arrival)}
    (harrivals : arrivals = (delay, .head head) :: rest) (hfine : ∀ p ∈ arrivals, IsFine limit p) :
    ComesTo limit route arrivals (.ok ⟨head, content arrivals⟩) (span arrivals)
  /-- The first arrival with which something is wrong comes too late: the wait for it is given up
  when the limit has passed since the arrival before it. -/
  | late {before after : List (Millis × Arrival)} {delay t : Millis} {arrival : Arrival}
    (harrivals : arrivals = before ++ (delay, arrival) :: after)
    (hfine : ∀ p ∈ before, IsFine limit p) (hlimit : limit = some t) (hlate : t < delay) :
    ComesTo limit route arrivals (.error (.new .socketTimeout route "read timed out"))
      (span before + t)
  /-- The first arrival with which something is wrong is an error that comes in time. -/
  | broken {before after : List (Millis × Arrival)} {delay : Millis} {f : ConnectionFault}
    (harrivals : arrivals = before ++ (delay, .fault f) :: after)
    (hfine : ∀ p ∈ before, IsFine limit p) (hintime : InTime limit delay) :
    ComesTo limit route arrivals (.error (f.toError route)) (span before + delay)

variable {limit : Option Millis} {route : String} {arrivals before after : List (Millis × Arrival)}
  {r : Reading} {delay t : Millis}

/-- The delays of arrivals add up. -/
theorem span_append (arrivals later : List (Millis × Arrival)) :
    span (arrivals ++ later) = span arrivals + span later := by
  induction arrivals with
  | nil => simp [span]
  | cons p arrivals ih => rw [List.cons_append, span, span, ih, Nat.add_assoc]

/-- A delay that is not in time reaches a limit. -/
theorem exists_of_not_inTime (h : ¬ InTime limit delay) : ∃ t, limit = some t ∧ t ≤ delay := by
  simpa [InTime] using h

/-- One of three things happens, unless a delay is exactly the limit. -/
theorem IsAnswer.exists_comesTo (h : IsAnswer arrivals) (hties : ∀ p ∈ arrivals, limit ≠ some p.1)
    (route : String) : ∃ outcome time, ComesTo limit route arrivals outcome time := by
  cases hfirst : arrivals.find? (fun p => !decide (IsFine limit p)) with
  | none =>
    have hfine : ∀ p ∈ arrivals, IsFine limit p := by simpa using hfirst
    cases h with
    | response => exact ⟨_, _, .whole rfl hfine⟩
    | fault delay f => cases (hfine _ (List.mem_singleton_self _)).2
  | some p =>
    obtain ⟨hp, before, after, rfl, hbefore⟩ := List.find?_eq_some_iff_append.1 hfirst
    have hfine : ∀ q ∈ before, IsFine limit q := by simpa using hbefore
    have hnot : ¬ IsFine limit p := by simpa using hp
    obtain ⟨delay, arrival⟩ := p
    by_cases hintime : InTime limit delay
    · cases arrival with
      | fault f => exact ⟨_, _, .broken rfl hfine hintime⟩
      | head | data | trailer | finished => exact absurd ⟨hintime, rfl⟩ hnot
    · obtain ⟨t, rfl, hle⟩ := exists_of_not_inTime hintime
      have hne : t ≠ delay := by
        rintro rfl
        exact hties (t, arrival) (by simp) rfl
      exact ⟨_, _, .late rfl hfine rfl (Nat.lt_of_le_of_ne hle hne)⟩

/-! ## Collecting what arrives -/

/-- A reading is not overdue as long as its delay is in time. -/
theorem isOverdue_of_inTime (h : InTime r.limit delay) : r.isOverdue (r.since + delay) = false := by
  cases hlimit : r.limit with
  | none => simp [isOverdue, deadline?, hlimit]
  | some t => simpa [isOverdue, deadline?, hlimit] using h t hlimit

/-- A reading is overdue once its delay has reached the limit. -/
theorem isOverdue_of_late (hlimit : r.limit = some t) (hlate : t ≤ delay) :
    r.isOverdue (r.since + delay) = true := by
  simpa [isOverdue, deadline?, hlimit] using hlate

/-- If the next arrival is too late, the reading ends when its time is over. -/
theorem run_late (hlimit : r.limit = some t) (hlate : t ≤ delay) (arrival : Arrival) :
    r.run ((delay, arrival) :: after) = some (.error .timedOut, r.since + t) := by
  simp [run, isOverdue_of_late hlimit hlate, deadline?, hlimit]

/-- An arrival in time after which the reading waits is taken in, and the reading goes on. -/
theorem run_of_waiting {arrival : Arrival} {next : Reading} (h : InTime r.limit delay)
    (hreceive : r.receive (r.since + delay) arrival = .waiting next) :
    r.run ((delay, arrival) :: after) = next.run after := by
  rw [run, if_neg (by simp [isOverdue_of_inTime h]), hreceive]

/-- An arrival in time that completes the response ends the reading. -/
theorem run_of_complete {arrival : Arrival} {response : Response} (h : InTime r.limit delay)
    (hreceive : r.receive (r.since + delay) arrival = .complete response) :
    r.run ((delay, arrival) :: after) = some (.ok response, r.since + delay) := by
  rw [run, if_neg (by simp [isOverdue_of_inTime h]), hreceive]

/-- An arrival in time that breaks the reading ends it. -/
theorem run_of_failed {arrival : Arrival} {failure : ReadFailure} (h : InTime r.limit delay)
    (hreceive : r.receive (r.since + delay) arrival = .failed failure) :
    r.run ((delay, arrival) :: after) = some (.error failure, r.since + delay) := by
  rw [run, if_neg (by simp [isOverdue_of_inTime h]), hreceive]

/-- When the body is finished in time, the response is what has been collected. -/
theorem run_finished (h : InTime r.limit delay) {head : ResponseHead} (hhead : r.head = some head) :
    r.run ((delay, .finished) :: after) = some (.ok ⟨head, r.body⟩, r.since + delay) :=
  run_of_complete h (by rw [receive, hhead])

/-- A reading after the head has come. -/
def begun (r : Reading) (delay : Millis) (head : ResponseHead) : Reading :=
  { r with since := r.since + delay, head := some head }

/-- A reading after some parts have come. -/
def collect (r : Reading) (parts : List (Millis × Arrival)) : Reading :=
  { r with since := r.since + span parts, body := r.body ++ content parts }

/-- Parts are collected piece by piece. -/
theorem collect_collect (parts later : List (Millis × Arrival)) :
    (r.collect parts).collect later = r.collect (parts ++ later) := by
  simp [collect, content, span_append, Nat.add_assoc]

/-- The head, if it is in time, is taken in and begins the body. -/
theorem run_head (h : InTime r.limit delay) (head : ResponseHead) :
    r.run ((delay, .head head) :: after) = (r.begun delay head).run after :=
  run_of_waiting h rfl

/-- A part of the body, if it is in time, is collected. -/
theorem run_part (h : InTime r.limit delay) {arrival : Arrival} (hpart : arrival.isPart = true) :
    r.run ((delay, arrival) :: after) = (r.collect [(delay, arrival)]).run after := by
  refine run_of_waiting h ?_
  cases arrival with
  | data | trailer => simp [receive, collect, span, content, Arrival.bytes]
  | head | finished | fault => cases hpart

/-- Parts that come in time are added to the body, and each begins a wait of its own. -/
theorem run_parts {parts : List (Millis × Arrival)} (hparts : ∀ p ∈ parts, p.2.isPart = true)
    (hintime : ∀ p ∈ parts, InTime r.limit p.1) (later : List (Millis × Arrival)) :
    r.run (parts ++ later) = (r.collect parts).run later := by
  induction parts generalizing r with
  | nil => simp [collect, span, content]
  | cons p parts ih =>
    obtain ⟨hpart, hparts⟩ := List.forall_mem_cons.1 hparts
    obtain ⟨hfirst, hintime⟩ := List.forall_mem_cons.1 hintime
    calc r.run (p :: (parts ++ later))
      _ = (r.collect [p]).run (parts ++ later) := run_part hfirst hpart
      _ = ((r.collect [p]).collect parts).run later := ih hparts hintime
      _ = (r.collect (p :: parts)).run later := by rw [collect_collect, List.singleton_append]

/-- Before anything is wrong there is nothing, or a head and some parts. -/
theorem IsAnswer.before_cases {p : Millis × Arrival} (h : IsAnswer (before ++ p :: after)) :
    before = [] ∨ ∃ delay head parts, before = (delay, .head head) :: parts ∧
      ∀ q ∈ parts, q.2.isPart = true := by
  cases before with
  | nil => exact .inl rfl
  | cons first parts =>
    refine .inr ?_
    generalize harrivals : first :: parts ++ p :: after = arrivals at h
    cases h with
    | response delay head all hall last =>
      obtain ⟨rfl, hrest⟩ := List.cons.inj harrivals
      refine ⟨delay, head, parts, rfl, fun q hq => hall q ?_⟩
      -- the last arrival comes at `p` or later, so that what comes before `p` is among the parts
      have hsplit : parts ++ [p] <+: all ++ [last] := ⟨after, by simpa using hrest⟩
      rcases List.prefix_concat_iff.1 hsplit with heq | hprefix
      · rwa [(List.append_inj_left' heq rfl)] at hq
      · exact hprefix.subset (List.mem_append_left _ hq)
    | fault delay f =>
      obtain ⟨-, hrest⟩ := List.cons.inj harrivals
      simp at hrest

/-- Until something is wrong, the time of the wait is that of the last arrival. -/
theorem exists_run_before (h : IsAnswer (before ++ after)) (hafter : after ≠ [])
    (hfine : ∀ p ∈ before, IsFine limit p) (now : Millis) :
    ∃ r : Reading, (start limit now).run (before ++ after) = r.run after ∧ r.limit = limit ∧
      r.since = now + span before := by
  obtain ⟨p, after, rfl⟩ := List.exists_cons_of_ne_nil hafter
  rcases h.before_cases with rfl | ⟨delay, head, parts, rfl, hparts⟩
  · exact ⟨start limit now, rfl, rfl, rfl⟩
  · obtain ⟨hhead, hrest⟩ := List.forall_mem_cons.1 hfine
    refine ⟨((start limit now).begun delay head).collect parts, ?_, rfl, ?_⟩
    · rw [List.cons_append, run_head hhead.1]
      exact run_parts hparts (fun q hq => (hrest q hq).1) _
    · simp [collect, begun, start, span, Nat.add_assoc]

/-- Collecting a response as it arrives comes to what the arrivals come to, at the same time. -/
theorem run_of_comesTo (h : IsAnswer arrivals) {outcome : Except TransportError Response}
    {time : Millis} (hcomes : ComesTo limit route arrivals outcome time) (now : Millis) :
    ∃ result, (start limit now).run arrivals = some (result, now + time) ∧
      result.mapError (·.toError route) = outcome := by
  cases hcomes with
  | whole harrivals hfine =>
    cases h with
    | fault delay f => cases harrivals
    | response delay head parts hparts last hlast =>
      obtain ⟨hhead, hrest⟩ := List.forall_mem_cons.1 hfine
      obtain ⟨hin, hend⟩ := List.forall_mem_append.1 hrest
      obtain ⟨hlastInTime, hnoFault⟩ := hend last (List.mem_singleton_self _)
      obtain ⟨lastDelay, lastArrival⟩ := last
      -- the last arrival is no fault and no part, so it is the end of the body
      obtain rfl : lastArrival = .finished := by
        cases lastArrival with
        | finished => rfl
        | fault => cases hnoFault
        | head | data | trailer => cases hlast
      obtain ⟨hfirst, -⟩ := List.cons.inj harrivals
      obtain ⟨-, hsame⟩ := Prod.mk.inj hfirst
      obtain rfl := Arrival.head.inj hsame
      have hread : (start limit now).run ((delay, .head head) :: (parts ++ [(lastDelay, .finished)])) =
          some (.ok ⟨head, content parts⟩, now + delay + span parts + lastDelay) := by
        rw [run_head hhead.1, run_parts hparts fun q hq => (hin q hq).1]
        exact run_finished hlastInTime rfl
      have hcontent : content ((delay, .head head) :: (parts ++ [(lastDelay, .finished)])) =
          content parts := by
        simp [content, Arrival.bytes]
      have hspan : now + span ((delay, .head head) :: (parts ++ [(lastDelay, .finished)])) =
          now + delay + span parts + lastDelay := by
        simp [span, span_append, Nat.add_assoc]
      exact ⟨.ok ⟨head, content parts⟩, by rw [hread, hspan], by rw [hcontent]; rfl⟩
  | @late before after delay t arrival harrivals hfine hlimit hlate =>
    subst harrivals
    obtain ⟨r, hrun, hrlimit, hsince⟩ := exists_run_before h (List.cons_ne_nil _ _) hfine now
    refine ⟨.error .timedOut, ?_, rfl⟩
    rw [hrun, run_late (hrlimit.trans hlimit) (Nat.le_of_lt hlate), hsince, Nat.add_assoc]
  | @broken before after delay f harrivals hfine hintime =>
    subst harrivals
    obtain ⟨r, hrun, hrlimit, hsince⟩ := exists_run_before h (List.cons_ne_nil _ _) hfine now
    refine ⟨.error (.fault f), ?_, rfl⟩
    rw [hrun, run_of_failed (hrlimit ▸ hintime) rfl, hsince, Nat.add_assoc]

end Reading
end PooledHttp
