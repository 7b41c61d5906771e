import PooledHttp.Proofs.Pool.Clock
import PooledHttp.Simulation.Clock

/-!
# How long connecting may take

The time limit for connecting is that of each address. When an address has not answered by then it is
given up and the next one is tried, with the whole limit again. So a host with `n` addresses may take
`n` times the limit, and no longer: this is shown of a series whose answers are known beforehand
(`Dialing.exists_run`), and of a series in a world where anything may happen while it waits
(`Simulation.World.Dials`).

There a step never takes time, and the clock does not pass the end of a wait, which is what the clock
of the world keeps to (`Simulation.World.goesOn_moveTo`). What carries the induction is
`Simulation.World.UnderWay`: the address being tried has had its turn since a time to which each address
before it has added the limit at most.
-/

set_option autoImplicit false

namespace PooledHttp

/-- Under a time limit every attempt ends, and it takes no longer than the limit. -/
theorem Answer.exists_outcome (t : Millis) (answer : Answer) :
    ∃ failure time, answer.outcome? (some t) = some (failure, time) ∧ time ≤ t := by
  cases answer with
  | accepts after | refuses after =>
    simp only [outcome?]
    split
    case isTrue h => exact ⟨_, _, rfl, h.le⟩
    case isFalse => exact ⟨_, _, rfl, le_refl t⟩
  | never => exact ⟨_, _, rfl, le_refl t⟩

namespace Dialing

variable {route : Route} {limit : Option Millis} {answer : ℕ → Endpoint → Answer} {d : Dialing}

/-- A series ends with the first address that accepts in time. -/
theorem run_accepted {time : Millis} (h : (answer 0 d.endpoint).outcome? limit = some (none, time)) :
    d.run route limit answer = some ⟨.ok d.endpoint, [d.endpoint], time⟩ := by
  rw [run, h]

/-- After an address fails, the series fails with it or goes on with the next one. -/
theorem run_failed {failure : DialFailure} {time : Millis}
    (h : (answer 0 d.endpoint).outcome? limit = some (some failure, time)) :
    d.run route limit answer = match d.fail route failure (d.since + time) with
      | .error e => some ⟨.error e, [d.endpoint], time⟩
      | .ok next => (next.run route limit fun n => answer (n + 1)).map fun later =>
        { later with tried := d.endpoint :: later.tried, elapsed := time + later.elapsed } := by
  rw [run, h]
  dsimp only
  split
  case h_1 e he => rw [he]
  case h_2 next hnext => rw [hnext]

/-- A series goes on with the next address, whose answer is the next one. -/
theorem run_next {endpoint next : Endpoint} {since time : Millis} {rest : List Endpoint}
    {failure : DialFailure} {later : Dialed}
    (h : (answer 0 endpoint).outcome? limit = some (some failure, time))
    (hlater : run route limit (fun n => answer (n + 1)) ⟨next, since + time, rest⟩ = some later) :
    run route limit answer ⟨endpoint, since, next :: rest⟩ = some
      { later with tried := endpoint :: later.tried, elapsed := time + later.elapsed } :=
  (run_failed h).trans (congrArg (Option.map _) hlater)

/-- A series comes to an end, and takes no longer than the limit for each address that it tries. -/
theorem exists_run (route : Route) (t : Millis) (answer : ℕ → Endpoint → Answer) (d : Dialing) :
    ∃ dialed, d.run route (some t) answer = some dialed ∧
      dialed.tried <+: d.endpoint :: d.rest ∧ dialed.elapsed ≤ dialed.tried.length * t := by
  obtain ⟨endpoint, since, rest⟩ := d
  -- on the addresses that are left; the next one begins where the failure of this one ended
  induction rest generalizing answer endpoint since with
  | nil =>
    obtain ⟨failure, time, houtcome, hle⟩ := (answer 0 endpoint).exists_outcome t
    cases failure with
    | none => exact ⟨_, run_accepted houtcome, List.prefix_rfl, by simpa using hle⟩
    | some failure => exact ⟨_, run_failed houtcome, List.prefix_rfl, by simpa using hle⟩
  | cons next rest ih =>
    obtain ⟨failure, time, houtcome, hle⟩ := (answer 0 endpoint).exists_outcome t
    cases failure with
    | none =>
      exact ⟨_, run_accepted houtcome, List.prefix_append [endpoint] _, by simpa using hle⟩
    | some failure =>
      obtain ⟨later, hlater, htried, helapsed⟩ :=
        ih (fun n => answer (n + 1)) next (since + time)
      refine ⟨_, run_next houtcome hlater, ?_, ?_⟩
      · exact (List.prefix_cons_inj endpoint).2 htried
      · calc time + later.elapsed ≤ t + later.tried.length * t := Nat.add_le_add hle helapsed
          _ = (later.tried.length + 1) * t := by rw [Nat.succ_mul, Nat.add_comm]

end Dialing

/-- A series with a limit comes to an end and takes at most the limit for each address tried. -/
theorem exists_dial (route : Route) (t : Millis) (answer : ℕ → Endpoint → Answer)
    (endpoints : List Endpoint) :
    ∃ dialed, dial route (some t) answer endpoints = some dialed ∧
      dialed.tried <+: endpoints ∧ dialed.elapsed ≤ dialed.tried.length * t := by
  cases endpoints with
  | nil => exact ⟨_, rfl, List.prefix_rfl, by simp⟩
  | cons e rest => exact Dialing.exists_run route t answer ⟨e, 0, rest⟩

/-- Whether no more addresses are going to be tried. -/
def Simulation.OpeningStep.isOver : Simulation.OpeningStep → Bool
  | .opened _ | .failed _ | .goOn (.securing _ _) => true
  | .goOn .begin | .goOn (.dialing _ _) | .wait => false

namespace Simulation.World

open Pool Client

variable {w w' : World} {route : Route} {limit : Option Millis} {d : Dialing} {opening : Opening}

/-! ## What takes no time -/

/-- Waking a task takes no time. -/
theorem now_awaken {t : TaskId} : (w.awaken t).now = w.now := by
  unfold awaken
  split <;> rfl

/-- Waking tasks takes no time. -/
theorem now_foldl_awaken (tasks : List TaskId) : (tasks.foldl awaken w).now = w.now :=
  List.foldlRecOn (motive := fun v : World => v.now = w.now) tasks awaken rfl
    fun _ hv _ _ => now_awaken.trans hv

/-- Waking the tasks that are not parked takes no time. -/
theorem now_stir : w.stir.now = w.now := by
  refine List.foldlRecOn (motive := fun v : World => v.now = w.now) _ _ rfl ?_
  intro v hv t _
  exact now_awaken.trans hv

/-- An event of the pool takes no time, unless it is the clock that goes on. -/
theorem now_service_step {s : Service} {e : Pool.Event} (he : ∀ time, e ≠ .tick time) :
    (s.step (.pool e)).pool.now = s.pool.now := by
  simp only [Service.step]
  split
  · rfl
  · exact System.now_step he

/-- A broadcast takes no time. -/
theorem now_broadcast : w.broadcast.now = w.now := by
  simp only [broadcast]
  split
  case isTrue => rfl
  case isFalse =>
    rw [now_foldl_awaken]
    refine List.foldlRecOn (motive := fun s : Service => s.pool.now = w.service.pool.now) _ _ rfl ?_
    intro s hs e he
    rw [← hs]
    rcases List.mem_append.1 he with he | he
    · rw [List.eq_of_mem_replicate he]
      exact now_service_step (e := .broadcast) nofun
    · rw [List.eq_of_mem_replicate he]
      exact now_service_step (e := .broadcastRemoval) nofun

/-- An event of the pool takes no time in the world, unless it is the clock that goes on. -/
theorem now_inPool {e : Pool.Event} (he : ∀ time, e ≠ .tick time) : (w.inPool e).now = w.now :=
  now_broadcast.trans (now_service_step he)

/-- Reporting closed connections takes no time. -/
theorem now_reportClosed : w.reportClosed.now = w.now := by
  refine List.foldlRecOn (motive := fun v : World => v.now = w.now) _ _ rfl ?_
  intro v hv c _
  exact (now_inPool (e := .closed c.2) nofun).trans hv

/-- Changing a channel takes no time. -/
theorem now_setChannel (ch : ChannelId) (f : Channel → Channel) : (w.setChannel ch f).now = w.now := by
  have hchanged : { w with channels := w.channels.modify ch f }.reportClosed.now = w.now :=
    now_reportClosed
  simp only [setChannel]
  split
  · exact now_stir.trans hchanged
  · exact hchanged

/-- Setting the options of a socket takes no time. -/
theorem now_setOptions (ch : ChannelId) (script : ConnectScript) :
    (w.setOptions route ch script).2.now = w.now := by
  unfold setOptions
  cases script.noDelayError with
  | some e => exact now_setChannel ch _
  | none => exact (now_setChannel ch _).trans (now_setChannel ch _)

/-- Meeting the server takes no time. -/
theorem now_meetServer (ch : ChannelId) (c : Channel) : (w.meetServer route ch c).now = w.now := by
  unfold meetServer
  split <;> rfl

/-! ## The steps of a series -/

/-- What a step of a series comes to in world `w'`. -/
inductive Tries (w : World) (route : Route) (limit : Option Millis) (d : Dialing) (w' : World) :
    Option ChannelId → OpeningStep → Prop
  /-- The attempt is begun, on a new channel. -/
  | begun (h : w'.channels.length = w.channels.length + 1) :
    Tries w route limit d w' none (.goOn (.dialing d (some w.channels.length)))
  /-- The address is given up. -/
  | next (channel : Option ChannelId) (failure : DialFailure) :
    Tries w route limit d w' channel (w.nextAddress route d failure)
  /-- An address has accepted. -/
  | accepted (channel : Option ChannelId) {s : OpeningStep} (h : s.isOver = true) :
    Tries w route limit d w' channel s
  /-- The address has not answered, and the time limit has not passed. -/
  | wait (ch : ChannelId) (h : ∀ deadline ∈ d.deadline? limit, w.now < deadline) :
    Tries w route limit d w' (some ch) .wait

/-- Beginning an attempt takes no time. -/
theorem now_attemptAddress : (w.attemptAddress route d).2.now = w.now := by
  unfold attemptAddress
  split
  · rfl
  · dsimp only
    split
    · rfl
    · dsimp only
      split <;> rfl

/-- An attempt that is begun has a new channel, or the address is given up at once. -/
theorem tries_attemptAddress :
    Tries w route limit d (w.attemptAddress route d).2 none (w.attemptAddress route d).1 := by
  unfold attemptAddress
  split
  · exact .next none _
  · dsimp only
    split
    · exact .next none _
    · refine .begun ?_
      dsimp only
      split <;> simp [plan]

/-- Using an established channel ends the series and takes no time. -/
theorem useChannel_spec (ch : ChannelId) (c : Channel) :
    (w.useChannel route ch c).1.isOver = true ∧ (w.useChannel route ch c).2.now = w.now := by
  have hnow : (w.setOptions route ch c.script).2.now = w.now := now_setOptions ch c.script
  unfold useChannel
  split
  case h_1 e w₁ h =>
    rw [h] at hnow
    exact ⟨rfl, (now_setChannel ch _).trans hnow⟩
  case h_2 w₁ h =>
    rw [h] at hnow
    split
    case isTrue => exact ⟨rfl, (now_setChannel ch _).trans hnow⟩
    case isFalse =>
      refine ⟨?_, (now_meetServer ch c).trans hnow⟩
      dsimp only
      split <;> rfl

/-- Looking after a channel is a step of the series and takes no time. -/
theorem awaitChannel_spec (ch : ChannelId) (c : Channel) :
    Tries w route limit d (w.awaitChannel route limit d ch c).2 (some ch)
        (w.awaitChannel route limit d ch c).1 ∧
      (w.awaitChannel route limit d ch c).2.now = w.now := by
  unfold awaitChannel
  split
  case isTrue =>
    exact ⟨.accepted (some ch) (useChannel_spec ch c).1, (useChannel_spec ch c).2⟩
  case isFalse =>
    split
    case isTrue => exact ⟨.next (some ch) _, now_setChannel ch _⟩
    case isFalse =>
      split
      case isTrue => exact ⟨.next (some ch) _, now_setChannel ch _⟩
      case isFalse hlate =>
        refine ⟨.wait ch ?_, rfl⟩
        intro deadline hdeadline
        simpa [Option.mem_def.1 hdeadline] using hlate

/-- Whatever a series is at, its next step comes to one of these things, and takes no time. -/
theorem stepOpening_spec (route : Route) (limit : Option Millis) (d : Dialing)
    {channel : Option ChannelId} (hchannel : ∀ ch ∈ channel, ch < w.channels.length) :
    Tries w route limit d (w.stepOpening route limit (.dialing d channel)).2 channel
        (w.stepOpening route limit (.dialing d channel)).1 ∧
      (w.stepOpening route limit (.dialing d channel)).2.now = w.now := by
  cases channel with
  | none => exact ⟨tries_attemptAddress, now_attemptAddress⟩
  | some ch =>
    have hc := List.getElem?_eq_getElem (hchannel ch rfl)
    simp only [stepOpening, hc]
    exact awaitChannel_spec ch _

/-! ## Series in a world that goes on -/

/-- The world goes on while an opening is under way: channels are only added, and the clock stands
still, or it goes on because the opening waits, and does not pass the end of the wait. -/
structure GoesOn (w : World) (route : Route) (limit : Option Millis) (opening : Opening)
    (w' : World) : Prop where
  channels : w.channels.length ≤ w'.channels.length
  clock : w'.now = w.now ∨ (w.stepOpening route limit opening).1 = .wait ∧ w.now ≤ w'.now ∧
    ∀ deadline ∈ w.openingDeadline? limit opening, w'.now ≤ deadline

/-- What connecting to a route has come to after a number of steps, and the world at that time. It
began in world `w₀`, and between the steps the world may go on in any way. -/
inductive Dials (route : Route) (limit : Option Millis) (w₀ : World) :
    ℕ → World → OpeningStep → Prop
  | begin : Dials route limit w₀ 0 w₀ (w₀.beginOpening route)
  | step {n : ℕ} {w : World} {d : Dialing} {channel : Option ChannelId} {s : OpeningStep}
    (h : Dials route limit w₀ n w (.goOn (.dialing d channel)))
    (hstep : (w.stepOpening route limit (.dialing d channel)).1 = s) (hs : s ≠ .wait) :
    Dials route limit w₀ (n + 1) (w.stepOpening route limit (.dialing d channel)).2 s
  | meanwhile {n : ℕ} {w w' : World} {d : Dialing} {channel : Option ChannelId}
    (h : Dials route limit w₀ n w (.goOn (.dialing d channel)))
    (hw : w.GoesOn route limit (.dialing d channel) w') :
    Dials route limit w₀ n w' (.goOn (.dialing d channel))

/-- A series that began at time `start` is under way: the addresses in `tried` have been given up, and
each of them has taken no more than the limit and two steps. -/
structure UnderWay (endpoints : List Endpoint) (start t : Millis) (n : ℕ) (w : World) (d : Dialing)
    (channel : Option ChannelId) (tried : List Endpoint) : Prop where
  endpoints_eq : endpoints = tried ++ d.endpoint :: d.rest
  steps : n ≤ 2 * tried.length + channel.toList.length
  since : d.since ≤ start + tried.length * t
  begun : channel = none → w.now = d.since
  notLate : w.now ≤ d.since + t
  channel : ∀ ch ∈ channel, ch < w.channels.length

/-- What is known of a series that began at time `start`: it is under way, or it is over. -/
inductive Bounded (endpoints : List Endpoint) (start t : Millis) (n : ℕ) (w : World) :
    OpeningStep → Prop
  | underWay {d : Dialing} {channel : Option ChannelId} {tried : List Endpoint}
    (h : UnderWay endpoints start t n w d channel tried) :
    Bounded endpoints start t n w (.goOn (.dialing d channel))
  | ended {s : OpeningStep} (hs : s.isOver = true) (steps : n ≤ 2 * endpoints.length)
    (now_le : w.now ≤ start + endpoints.length * t) : Bounded endpoints start t n w s

variable {endpoints tried : List Endpoint} {start t : Millis} {n : ℕ} {channel : Option ChannelId}
  {s : OpeningStep} {w₀ : World}

/-- The addresses tried, the one being tried and those left are all the addresses. -/
theorem UnderWay.length_tried (h : UnderWay endpoints start t n w d channel tried) :
    tried.length + d.rest.length + 1 = endpoints.length := by
  rw [h.endpoints_eq, List.length_append, List.length_cons, Nat.add_assoc]

/-- When the address being tried is given up, all addresses up to it have had the limit at most. -/
theorem UnderWay.deadline_le (h : UnderWay endpoints start t n w d channel tried) :
    d.since + t ≤ start + (tried.length + 1) * t := by
  calc d.since + t ≤ start + tried.length * t + t := Nat.add_le_add_right h.since t
    _ = start + (tried.length + 1) * t := by rw [Nat.succ_mul, Nat.add_assoc]

/-- A series under way takes at most two steps for each address begun. -/
theorem UnderWay.succ_steps_le (h : UnderWay endpoints start t n w d channel tried) :
    n + 1 ≤ 2 * (tried.length + 1) := by
  have hsteps := h.steps
  have hchannel : channel.toList.length ≤ 1 := by cases channel <;> simp
  omega

/-- The end of the attempt under way and its next step are within the bounds of the series. -/
theorem UnderWay.bounds (h : UnderWay endpoints start t n w d channel tried) :
    d.since + t ≤ start + endpoints.length * t ∧ n + 1 ≤ 2 * endpoints.length := by
  have hlength : tried.length + 1 ≤ endpoints.length := by
    have := h.length_tried
    omega
  constructor
  · exact h.deadline_le.trans (Nat.add_le_add_left (Nat.mul_le_mul_right t hlength) start)
  · exact h.succ_steps_le.trans (Nat.mul_le_mul_left 2 hlength)

/-- A series is within its bounds when it begins. -/
theorem bounded_begin (hresolve : resolve w₀.names route = .ok endpoints) :
    Bounded endpoints w₀.now t 0 w₀ (w₀.beginOpening route) := by
  unfold beginOpening
  rw [hresolve]
  cases endpoints with
  | nil => exact .ended rfl (Nat.zero_le _) (Nat.le_add_right _ _)
  | cons e rest =>
    have hfirst : UnderWay (e :: rest) w₀.now t 0 w₀ ⟨e, w₀.now, rest⟩ none [] :=
      ⟨rfl, Nat.zero_le _, by simp, fun _ => rfl, Nat.le_add_right _ _, nofun⟩
    exact .underWay hfirst

/-- An address is given up: the next one is tried from now on, or the series is over. -/
theorem UnderWay.next (h : UnderWay endpoints start t n w d channel tried) (hnow : w'.now = w.now)
    (failure : DialFailure) :
    Bounded endpoints start t (n + 1) w' (w.nextAddress route d failure) := by
  unfold nextAddress Dialing.fail
  cases hrest : d.rest with
  | nil =>
    obtain ⟨hdeadline, hsteps⟩ := h.bounds
    exact .ended rfl hsteps (hnow ▸ h.notLate.trans hdeadline)
  | cons e rest =>
    have htried : (tried ++ [d.endpoint]).length = tried.length + 1 := by simp
    have hnext : UnderWay endpoints start t (n + 1) w' ⟨e, w.now, rest⟩ none
        (tried ++ [d.endpoint]) := by
      refine ⟨?_, ?_, ?_, fun _ => hnow, ?_, nofun⟩
      · rw [h.endpoints_eq, hrest, List.append_assoc]
        rfl
      · rw [htried]
        exact h.succ_steps_le
      · rw [htried]
        exact h.notLate.trans h.deadline_le
      · exact hnow ▸ Nat.le_add_right _ _
    exact .underWay hnext

/-- A step that does not wait keeps a series within its bounds. -/
theorem UnderWay.step (h : UnderWay endpoints start t n w d channel tried)
    (hstep : (w.stepOpening route (some t) (.dialing d channel)).1 = s) (hs : s ≠ .wait) :
    Bounded endpoints start t (n + 1) (w.stepOpening route (some t) (.dialing d channel)).2 s := by
  obtain ⟨htries, hnow⟩ := stepOpening_spec route (some t) d h.channel
  rw [hstep] at htries
  cases htries with
  | begun hchannels =>
    refine .underWay
      ⟨h.endpoints_eq, Nat.succ_le_succ h.steps, h.since, nofun, hnow ▸ h.notLate, ?_⟩
    intro ch hch
    rw [hchannels, ← Option.some.inj hch]
    exact Nat.lt_succ_self _
  | next => exact h.next hnow _
  | accepted _ hover =>
    obtain ⟨hdeadline, hsteps⟩ := h.bounds
    exact .ended hover hsteps (hnow ▸ h.notLate.trans hdeadline)
  | wait => exact absurd rfl hs

/-- Giving up an address is not a wait. -/
theorem nextAddress_ne_wait (failure : DialFailure) : w.nextAddress route d failure ≠ .wait := by
  unfold nextAddress
  split <;> exact nofun

/-- A series waits only for an answer, and only until the limit has passed. -/
theorem UnderWay.lt_of_wait (h : UnderWay endpoints start t n w d channel tried)
    (hwait : (w.stepOpening route (some t) (.dialing d channel)).1 = .wait) :
    channel.isSome = true ∧ w.now < d.since + t := by
  have htries := (stepOpening_spec route (some t) d h.channel).1
  generalize (w.stepOpening route (some t) (.dialing d channel)).1 = s at htries hwait
  cases htries with
  | wait ch hdeadline => exact ⟨rfl, hdeadline _ rfl⟩
  | next => exact absurd hwait (nextAddress_ne_wait _)
  | accepted _ hover =>
    subst hwait
    cases hover
  | begun => cases hwait

/-- A world that goes on while a series is under way leaves it within its bounds. -/
theorem UnderWay.goesOn (h : UnderWay endpoints start t n w d channel tried)
    (hw : w.GoesOn route (some t) (.dialing d channel) w') :
    UnderWay endpoints start t n w' d channel tried := by
  refine ⟨h.endpoints_eq, h.steps, h.since, ?_, ?_, fun ch hch => ?_⟩
  · -- an address that has not been begun is not waited for, and so the clock stands still
    rintro rfl
    rcases hw.clock with hsame | ⟨hwait, -⟩
    · rw [hsame, h.begun rfl]
    · cases (h.lt_of_wait hwait).1
  · rcases hw.clock with hsame | ⟨hwait, -, hdeadline⟩
    · exact hsame ▸ h.notLate
    · obtain ⟨ch, rfl⟩ := Option.isSome_iff_exists.1 (h.lt_of_wait hwait).1
      exact hdeadline _ rfl
  · exact (h.channel ch hch).trans_le hw.channels

/-- A series stays within its bounds. -/
theorem Dials.bounded (h : Dials route (some t) w₀ n w s)
    (hresolve : resolve w₀.names route = .ok endpoints) : Bounded endpoints w₀.now t n w s := by
  induction h with
  | begin => exact bounded_begin hresolve
  | step _ hstep hs ih =>
    cases ih with
    | underWay h => exact h.step hstep hs
    | ended hover => cases hover
  | meanwhile _ hw ih =>
    cases ih with
    | underWay h => exact .underWay (h.goesOn hw)
    | ended hover => cases hover

/-! ## The clock of the world -/

/-- The clock of the world moves to no time past the end of a wait. -/
theorem le_of_nextMoment? {time deadline : Millis} {task : Task} (h : w.nextMoment? = some time)
    (htask : task ∈ w.tasks) (hdeadline : w.deadline? task = some deadline) : time ≤ deadline := by
  refine (List.min?_eq_some_iff.1 h).2 deadline ?_
  exact List.mem_append_left _ (List.mem_filterMap.2 ⟨task, htask, hdeadline⟩)

/-- A task that opens a connection for its lease waits as long as the opening does. -/
theorem deadline?_of_connecting {task : Task} {l : LeaseId} {lease : Lease}
    (hrunning : task.running = true) (hjob : task.job = .lease l limit opening)
    (hl : w.service.pool.leases[l]? = some lease) (hconnecting : lease.phase = .connecting) :
    w.deadline? task = w.openingDeadline? limit opening := by
  simp [deadline?, hrunning, hjob, hl, hconnecting]

/-- Waking tasks changes no channel. -/
theorem channels_foldl_awaken (tasks : List TaskId) :
    (tasks.foldl awaken w).channels = w.channels := by
  refine List.foldlRecOn (motive := fun v : World => v.channels = w.channels) tasks awaken rfl ?_
  intro v hv t _
  rw [← hv, awaken]
  split <;> rfl

/-- An event of the pool changes no channel. -/
theorem channels_inPool (e : Pool.Event) : (w.inPool e).channels = w.channels := by
  simp only [inPool, happen, broadcast]
  split
  case isTrue => rfl
  case isFalse => exact channels_foldl_awaken _

/-- When the clock is moved, it shows the new time or stands still. -/
theorem now_moveTo (time : Millis) :
    (w.moveTo time).now = w.now ∨ (w.moveTo time).now = time ∧ w.now ≤ time := by
  have htick : (w.moveTo time).now = (w.service.pool.step (.tick (time - w.now))).now := by
    rw [moveTo, inPool, happen, now_broadcast]
    simp [now, Service.step, Service.isReserved, Service.inPool]
  rw [htick, System.step]
  split
  case isFalse => exact .inl rfl
  case isTrue =>
    rcases Nat.le_total w.now time with hle | hle
    · exact .inr ⟨Nat.add_sub_cancel' hle, hle⟩
    · exact .inl (congrArg (w.now + ·) (Nat.sub_eq_zero_of_le hle))

/-- While a task waits for its connection to be opened, the world goes on to the next moment at which
something is due in the way that was asked of it. -/
theorem goesOn_moveTo {time : Millis} {task : Task} {l : LeaseId} {lease : Lease}
    (hwait : (w.stepOpening route limit opening).1 = .wait) (hnext : w.nextMoment? = some time)
    (htask : task ∈ w.tasks) (hrunning : task.running = true)
    (hjob : task.job = .lease l limit opening) (hl : w.service.pool.leases[l]? = some lease)
    (hconnecting : lease.phase = .connecting) : w.GoesOn route limit opening (w.moveTo time) := by
  have hdeadline := deadline?_of_connecting hrunning hjob hl hconnecting
  refine ⟨(congrArg List.length (channels_inPool _)).ge, ?_⟩
  rcases now_moveTo time with hstill | ⟨hmoved, hle⟩
  · exact .inl hstill
  · refine .inr ⟨hwait, hle.trans hmoved.ge, fun deadline hmem => ?_⟩
    exact hmoved.trans_le (le_of_nextMoment? hnext htask (hdeadline.trans hmem))

/-! ## All of it -/

/-- Under a time limit, connecting comes to an end, whatever the addresses answer and whatever goes on
meanwhile. Each address is given up when it has not answered within the limit, counted from the time
at which it is tried, and so all of `n` addresses together take no more than `n` times the limit and
`2 * n` steps. -/
theorem connecting_bounded (route : Route) (t : Millis) :
    (∀ (answer : ℕ → Endpoint → Answer) (endpoints : List Endpoint),
      ∃ dialed, dial route (some t) answer endpoints = some dialed ∧
        dialed.tried <+: endpoints ∧ dialed.elapsed ≤ dialed.tried.length * t) ∧
    ∀ (w₀ : World) (endpoints : List Endpoint), resolve w₀.names route = .ok endpoints →
      ∀ (n : ℕ) (w : World) (s : OpeningStep), Dials route (some t) w₀ n w s →
        n ≤ 2 * endpoints.length ∧ w.now ≤ w₀.now + endpoints.length * t ∧
        (s.isOver = true ∨ ∃ d channel, s = .goOn (.dialing d channel) ∧ w.now ≤ d.since + t ∧
          d.since + t ≤ w₀.now + endpoints.length * t ∧
          ((w.stepOpening route (some t) (.dialing d channel)).1 = .wait →
            w.now < d.since + t)) := by
  refine ⟨exists_dial route t, ?_⟩
  intro w₀ endpoints hresolve n w s h
  cases h.bounded hresolve with
  | ended hover hsteps hnow => exact ⟨hsteps, hnow, .inl hover⟩
  | underWay hway =>
    obtain ⟨hdeadline, hsteps⟩ := hway.bounds
    exact ⟨Nat.le_of_succ_le hsteps, hway.notLate.trans hdeadline,
      .inr ⟨_, _, rfl, hway.notLate, hdeadline, fun hwait => (hway.lt_of_wait hwait).2⟩⟩

/-- A world in which the host `h` has two addresses, and the servers there never answer. -/
def silentHost : World :=
  let script : ConnectScript := { ConnectScript.plain with blackhole := true }
  let server (last : Nat) : Server := ⟨⟨.v4 [10, 0, 0, last], 0, 80⟩, false, [script], []⟩
  let service : Service := .init ⟨⟨false, none, none, none⟩, ⟨1⟩, .standard⟩ ⟨1, 1, .standard⟩
  .init service false 0 [(['h'], [.v4 [10, 0, 0, 1], .v4 [10, 0, 0, 2]])] [server 1, server 2]

/-- The limit is ten milliseconds, and after twenty the second address is still being tried. -/
theorem dials_silentHost : ∃ w, w.now = 20 ∧ Dials ⟨.http, ['h'], 80⟩ (some 10) silentHost 3 w
    (.goOn (.dialing ⟨⟨.v4 [10, 0, 0, 2], 0, 80⟩, 10, []⟩ (some 1))) := by
  let route : Route := ⟨.http, ['h'], 80⟩
  let first : Dialing := ⟨⟨.v4 [10, 0, 0, 1], 0, 80⟩, 0, [⟨.v4 [10, 0, 0, 2], 0, 80⟩]⟩
  let second : Dialing := ⟨⟨.v4 [10, 0, 0, 2], 0, 80⟩, 10, []⟩
  let w₁ := (silentHost.stepOpening route (some 10) (.dialing first none)).2
  let w₂ := w₁.moveTo 10
  let w₃ := (w₂.stepOpening route (some 10) (.dialing first (some 0))).2
  let w₄ := (w₃.stepOpening route (some 10) (.dialing second none)).2
  have h₀ : Dials route (some 10) silentHost 0 silentHost (.goOn (.dialing first none)) := .begin
  have h₁ : Dials route (some 10) silentHost 1 w₁ (.goOn (.dialing first (some 0))) :=
    h₀.step (by decide) nofun
  have h₂ : Dials route (some 10) silentHost 1 w₂ (.goOn (.dialing first (some 0))) :=
    h₁.meanwhile ⟨by decide, .inr ⟨by decide, by decide, by decide⟩⟩
  have h₃ : Dials route (some 10) silentHost 2 w₃ (.goOn (.dialing second none)) :=
    h₂.step (by decide) nofun
  have h₄ : Dials route (some 10) silentHost 3 w₄ (.goOn (.dialing second (some 1))) :=
    h₃.step (by decide) nofun
  have h₅ : Dials route (some 10) silentHost 3 (w₄.moveTo 20) (.goOn (.dialing second (some 1))) :=
    h₄.meanwhile ⟨by decide, .inr ⟨by decide, by decide, by decide⟩⟩
  exact ⟨_, by decide, h₅⟩

/-- Connecting to that host takes longer than the limit. -/
theorem connecting_outlasts_limit :
    let route : Route := ⟨.http, ['h'], 80⟩
    let endpoints : List Endpoint := [⟨.v4 [10, 0, 0, 1], 0, 80⟩, ⟨.v4 [10, 0, 0, 2], 0, 80⟩]
    resolve silentHost.names route = .ok endpoints ∧
      (∃ dialed, dial route (some 10) (fun _ _ => .never) endpoints = some dialed ∧
        dialed.elapsed = 20 ∧ ¬ dialed.elapsed ≤ 10) ∧
      ∃ n w s, Dials route (some 10) silentHost n w s ∧ s.isOver = false ∧
        ¬ w.now ≤ silentHost.now + 10 := by
  intro route endpoints
  obtain ⟨w, hnow, h⟩ := dials_silentHost
  refine ⟨rfl, ⟨_, (Dialing.run_failed rfl).trans (congrArg (Option.map _) (Dialing.run_failed rfl)),
    rfl, by decide⟩, 3, w, _, h, rfl, ?_⟩
  rw [hnow]
  decide

/-- Twice the limit is what it may take, and what it takes. -/
theorem connecting_bounded_silent :
    let route : Route := ⟨.http, ['h'], 80⟩
    let endpoints : List Endpoint := [⟨.v4 [10, 0, 0, 1], 0, 80⟩, ⟨.v4 [10, 0, 0, 2], 0, 80⟩]
    resolve silentHost.names route = .ok endpoints ∧
      ∃ w s, Dials route (some 10) silentHost 3 w s ∧ w.now = 20 ∧
        3 ≤ 2 * endpoints.length ∧ w.now ≤ silentHost.now + endpoints.length * 10 := by
  intro route endpoints
  obtain ⟨w, hnow, h⟩ := dials_silentHost
  obtain ⟨hsteps, htime, -⟩ := (connecting_bounded route 10).2 silentHost endpoints rfl 3 w _ h
  exact ⟨rfl, w, _, h, hnow, hsteps, htime⟩

end Simulation.World
end PooledHttp
