import PooledHttp.Proofs.Dial.Limits

/-!
# Which address is connected to

The addresses of a host are tried in order until one accepts. `FallsBack` says what a series comes to
when its attempts have ended in given ways: the first address that accepts is taken, and if none does,
the failure of the last one is reported. The kind of this failure says whether the time was over
(`DialFailure.kind_toError_eq_iff`).

Shown is that the series falls back in this way when the answers are known beforehand, each attempt
having one of its own (`Dialing.exists_log`), and in a world where anything may happen while it waits.
There `Simulation.World.Attempts` keeps account of the attempts that have ended, through the same steps
as `Simulation.World.Dials`.
-/

set_option autoImplicit false

namespace PooledHttp

namespace DialFailure

/-- The address was given up because the time was over, for the client or for the operating system. -/
def IsTimeout : DialFailure → Prop
  | refused e => e.kind = .timedOut
  | silent => True

variable (failure : DialFailure) (route : Route) (e : Endpoint)

/-- The error of a failure is a timeout exactly if the failure is one. -/
theorem kind_toError_eq_iff :
    (failure.toError route e).kind = .connectTimeout ↔ failure.IsTimeout := by
  cases failure with
  | silent => exact ⟨fun _ => trivial, fun _ => rfl⟩
  | refused cause =>
    have hkind : ((refused cause).toError route e).kind =
        if cause.kind = .timedOut then .connectTimeout else .io := rfl
    rw [hkind, IsTimeout]
    split <;> simp [*]

/-- The error of any other failure is one of input and output. -/
theorem kind_toError_of_not_isTimeout (h : ¬ failure.IsTimeout) :
    (failure.toError route e).kind = .io := by
  cases failure with
  | silent => exact absurd trivial h
  | refused cause => exact if_neg h

end DialFailure

namespace Answer

/-- The time after which an address answers. -/
def time? : Answer → Option Millis
  | accepts after | refuses after _ => some after
  | never => none

/-- How an attempt ends that gets this answer, for the reason given, or without one if the address
accepts. -/
inductive Ends (limit : Option Millis) : Answer → Option DialFailure → Prop
  | accepted {after : Millis} (h : ∀ t ∈ limit, after < t) : Ends limit (accepts after) none
  | refused {after : Millis} {e : IoError} (h : ∀ t ∈ limit, after < t) :
    Ends limit (refuses after e) (some (.refused e))
  /-- The address has not answered when the time is over. -/
  | silent {answer : Answer} {t : Millis} (ht : t ∈ limit) (h : ∀ after ∈ answer.time?, t ≤ after) :
    Ends limit answer (some .silent)

variable {limit : Option Millis} {answer : Answer} {failure failure' : Option DialFailure}

/-- An attempt that ends has an outcome at some time, which is the end. -/
theorem Ends.exists_outcome (h : answer.Ends limit failure) :
    ∃ time, answer.outcome? limit = some (failure, time) := by
  cases h with
  | accepted h | refused h =>
    cases limit with
    | none => exact ⟨_, rfl⟩
    | some t => exact ⟨_, if_pos (h t rfl)⟩
  | silent ht h =>
    obtain rfl := Option.mem_def.1 ht
    cases answer with
    | accepts after | refuses after => exact ⟨_, if_neg (Nat.not_lt.2 (h after rfl))⟩
    | never => exact ⟨_, rfl⟩

/-- An attempt ends in one way. -/
theorem Ends.unique (h : answer.Ends limit failure) (h' : answer.Ends limit failure') :
    failure = failure' := by
  obtain ⟨time, h⟩ := h.exists_outcome
  obtain ⟨time', h'⟩ := h'.exists_outcome
  exact congrArg Prod.fst (Option.some.inj (h.symm.trans h'))

/-- Only without a time limit does an attempt not end, at an address that never answers. -/
theorem exists_ends (h : limit = none → answer ≠ never) : ∃ failure, answer.Ends limit failure := by
  have hlate {after : Millis} (hafter : answer.time? = some after)
      (hin : ¬ ∀ t ∈ limit, after < t) : answer.Ends limit (some .silent) := by
    obtain ⟨t, ht, hle⟩ : ∃ t ∈ limit, t ≤ after := by simpa using hin
    exact .silent ht fun _ hmem => Option.some.inj (hafter.symm.trans hmem) ▸ hle
  cases answer with
  | accepts after =>
    by_cases hin : ∀ t ∈ limit, after < t
    · exact ⟨_, .accepted hin⟩
    · exact ⟨_, hlate rfl hin⟩
  | refuses after e =>
    by_cases hin : ∀ t ∈ limit, after < t
    · exact ⟨_, .refused hin⟩
    · exact ⟨_, hlate rfl hin⟩
  | never =>
    obtain ⟨t, ht⟩ := Option.ne_none_iff_exists'.1 fun hnone => h hnone rfl
    exact ⟨_, .silent ht nofun⟩

end Answer

/-! ## What a series comes to -/

/-- The attempts at addresses that have failed. -/
def allFailed (failed : List (Endpoint × DialFailure)) : List (Endpoint × Option DialFailure) :=
  failed.map fun a => (a.1, some a.2)

/-- What a series over the endpoints comes to, when its attempts have ended as the log says: each one
at an address and for a reason, or without one if the address has accepted. -/
inductive FallsBack (route : Route) :
    List Endpoint → List (Endpoint × Option DialFailure) → Except TransportError Endpoint → Prop
  /-- All addresses before the first one that accepts have been tried, each once, and none behind it. -/
  | accepted (failed : List (Endpoint × DialFailure)) (e : Endpoint) (untried : List Endpoint) :
    FallsBack route (failed.map Prod.fst ++ e :: untried) (allFailed failed ++ [(e, none)]) (.ok e)
  /-- All addresses have been tried, each once. -/
  | failed (failed : List (Endpoint × DialFailure)) (last : Endpoint) (failure : DialFailure) :
    FallsBack route (failed.map Prod.fst ++ [last]) (allFailed failed ++ [(last, some failure)])
      (.error (failure.toError route last))
  | nowhere : FallsBack route [] [] (.error (unknownHost route noAddresses))

namespace FallsBack

variable {route : Route} {endpoints : List Endpoint} {log : List (Endpoint × Option DialFailure)}
  {result : Except TransportError Endpoint} {e : Endpoint} {error : TransportError}

/-- One more address in front, which fails, does not change what a series comes to. -/
theorem cons (h : FallsBack route endpoints log result) (hendpoints : endpoints ≠ []) (e : Endpoint)
    (failure : DialFailure) : FallsBack route (e :: endpoints) ((e, some failure) :: log) result := by
  cases h with
  | accepted failed e' untried => exact .accepted ((e, failure) :: failed) e' untried
  | failed failed last failure' => exact .failed ((e, failure) :: failed) last failure'
  | nowhere => exact absurd rfl hendpoints

/-- The address that is taken has accepted when it was tried in its turn. -/
theorem exists_accepted (h : FallsBack route endpoints log (.ok e)) :
    ∃ n : ℕ, endpoints[n]? = some e ∧ log[n]? = some (e, none) := by
  cases h with
  | accepted failed _ untried => exact ⟨failed.length, by simp, by simp [allFailed]⟩

/-- If the series fails, then every address has been tried in its turn and has failed. -/
theorem exists_failed (h : FallsBack route endpoints log (.error error)) {n : ℕ}
    (hn : endpoints[n]? = some e) : ∃ failure, log[n]? = some (e, some failure) := by
  have hall (failed : List (Endpoint × DialFailure)) (hmap : (failed.map Prod.fst)[n]? = some e) :
      ∃ failure, (allFailed failed)[n]? = some (e, some failure) := by
    rw [List.getElem?_map, Option.map_eq_some_iff] at hmap
    obtain ⟨a, ha, rfl⟩ := hmap
    exact ⟨a.2, by rw [allFailed, List.getElem?_map, ha]; rfl⟩
  cases h with
  | failed failed last failure =>
    have hlast := hall (failed ++ [(last, failure)]) (by simpa using hn)
    simpa [allFailed] using hlast
  | nowhere => cases hn

end FallsBack

/-! ## Series whose answers are known -/

/-- The attempts have ended as their answers say, the one at each place of the log as its own. -/
def EndAsAnswered (limit : Option Millis) (answer : ℕ → Endpoint → Answer)
    (log : List (Endpoint × Option DialFailure)) : Prop :=
  ∀ (n : ℕ) a, log[n]? = some a → (answer n a.1).Ends limit a.2

section Known

variable {route : Route} {limit : Option Millis} {answer : ℕ → Endpoint → Answer}
  {log : List (Endpoint × Option DialFailure)}

/-- Where nothing has been tried, all attempts have ended as answered. -/
theorem endAsAnswered_nil : EndAsAnswered limit answer [] := nofun

/-- One more attempt in front that ends as answered goes with those that follow it. -/
theorem EndAsAnswered.cons {e : Endpoint} {failure : Option DialFailure}
    (hfirst : (answer 0 e).Ends limit failure) (h : EndAsAnswered limit (fun n => answer (n + 1)) log) :
    EndAsAnswered limit answer ((e, failure) :: log) := by
  intro n a ha
  cases n with
  | zero =>
    cases ha
    exact hfirst
  | succ n => exact h n a ha

/-- A series whose attempts all end falls back. -/
theorem Dialing.exists_log (answer : ℕ → Endpoint → Answer) (d : Dialing)
    (hends : ∀ (n : ℕ) e, (d.endpoint :: d.rest)[n]? = some e →
      ∃ failure, (answer n e).Ends limit failure) :
    ∃ dialed log, d.run route limit answer = some dialed ∧ EndAsAnswered limit answer log ∧
      FallsBack route (d.endpoint :: d.rest) log dialed.result ∧
      dialed.tried = log.map Prod.fst := by
  obtain ⟨endpoint, since, rest⟩ := d
  -- on the addresses that are left, for the answers that are left
  induction rest generalizing answer endpoint since with
  | nil =>
    obtain ⟨failure, hfirst⟩ := hends 0 endpoint rfl
    obtain ⟨time, houtcome⟩ := hfirst.exists_outcome
    have hanswered : EndAsAnswered limit answer [(endpoint, failure)] := endAsAnswered_nil.cons hfirst
    cases failure with
    | none => exact ⟨_, _, run_accepted houtcome, hanswered, .accepted [] endpoint [], rfl⟩
    | some failure => exact ⟨_, _, run_failed houtcome, hanswered, .failed [] endpoint failure, rfl⟩
  | cons next rest ih =>
    obtain ⟨failure, hfirst⟩ := hends 0 endpoint rfl
    obtain ⟨time, houtcome⟩ := hfirst.exists_outcome
    cases failure with
    | none =>
      exact ⟨_, _, run_accepted houtcome, endAsAnswered_nil.cons hfirst,
        .accepted [] endpoint (next :: rest), rfl⟩
    | some failure =>
      obtain ⟨later, log, hlater, hanswered, hfalls, htried⟩ :=
        ih (fun n => answer (n + 1)) next (since + time) fun n => hends (n + 1)
      exact ⟨_, (endpoint, some failure) :: log, run_next houtcome hlater, hanswered.cons hfirst,
        hfalls.cons nofun endpoint failure, congrArg (endpoint :: ·) htried⟩

/-- A series whose attempts all end falls back as their answers say, trying what its log says. -/
theorem exists_log_of_dial {endpoints : List Endpoint}
    (hends : ∀ (n : ℕ) e, endpoints[n]? = some e → ∃ failure, (answer n e).Ends limit failure) :
    ∃ dialed log, dial route limit answer endpoints = some dialed ∧ EndAsAnswered limit answer log ∧
      FallsBack route endpoints log dialed.result ∧ dialed.tried = log.map Prod.fst := by
  cases endpoints with
  | nil => exact ⟨_, [], rfl, endAsAnswered_nil, .nowhere, rfl⟩
  | cons e rest => exact Dialing.exists_log answer ⟨e, 0, rest⟩ hends

/-- Whether an address is taken is decided by whether one accepts in its turn. -/
theorem FallsBack.exists_ok_iff {endpoints : List Endpoint} {result : Except TransportError Endpoint}
    (h : FallsBack route endpoints log result) (hanswered : EndAsAnswered limit answer log) :
    (∃ e, result = .ok e) ↔
      ∃ (n : ℕ) (e : Endpoint), endpoints[n]? = some e ∧ (answer n e).Ends limit none := by
  constructor
  · rintro ⟨e, rfl⟩
    obtain ⟨n, hn, hlog⟩ := h.exists_accepted
    exact ⟨n, e, hn, hanswered n _ hlog⟩
  · rintro ⟨n, e, hn, haccepts⟩
    cases hresult : result with
    | ok e => exact ⟨e, rfl⟩
    | error error =>
      obtain ⟨failure, hlog⟩ := (hresult ▸ h).exists_failed hn
      cases haccepts.unique (hanswered n _ hlog)

end Known

/-! ## Series in a world that goes on -/

namespace Simulation.World

open Pool Client

variable {w w' w₀ : World} {route : Route} {limit : Option Millis} {d : Dialing}
  {channel : Option ChannelId} {failure : Option DialFailure} {s : OpeningStep}
  {endpoints : List Endpoint} {log : List (Endpoint × Option DialFailure)} {n : ℕ}

/-- The attempt at the address being tried has come to its end, for the reason given, or without one
if the address has accepted. -/
inductive Ended (w : World) (limit : Option Millis) (d : Dialing) :
    Option ChannelId → Option DialFailure → Prop
  /-- There is no server at the address. -/
  | nobody (h : ∀ server ∈ w.servers, server.endpoint ≠ d.endpoint) :
    Ended w limit d none (some (.refused SystemError.connectionRefused.toIoError))
  /-- The attempt fails at once. -/
  | refused {server : Server} {e : SystemError}
    (h : w.servers.find? (fun server => server.endpoint == d.endpoint) = some server)
    (he : (server.connects.head?.getD .plain).error = some e) :
    Ended w limit d none (some (.refused e.toIoError))
  | accepted {ch : ChannelId} {c : Channel} (hc : w.channels[ch]? = some c)
    (h : c.established = true) : Ended w limit d (some ch) none
  /-- The server has closed the connection before it was established. -/
  | closed {ch : ChannelId} {c : Channel} (hc : w.channels[ch]? = some c)
    (h : c.established = false) (hclosed : c.serverOpen = false) :
    Ended w limit d (some ch) (some (.refused SystemError.connectionReset.toIoError))
  /-- The address has not answered when the time is over. -/
  | silent {ch : ChannelId} {c : Channel} {t : Millis} (hc : w.channels[ch]? = some c)
    (h : c.established = false) (hopen : c.serverOpen = true) (ht : t ∈ limit)
    (hlate : d.since + t ≤ w.now) : Ended w limit d (some ch) (some .silent)

/-- The channel is a connection to the address. -/
def LeadsTo (w : World) (ch : ChannelId) (e : Endpoint) : Prop :=
  ∃ c server, w.channels[ch]? = some c ∧ w.servers[c.server]? = some server ∧ server.endpoint = e

/-- The opening goes on with a channel that is established, and fails or succeeds on it. -/
inductive GoesOnWith (ch : ChannelId) : OpeningStep → Prop
  | opened : GoesOnWith ch (.opened ch)
  | securing (since : Millis) : GoesOnWith ch (.goOn (.securing ch since))
  | failed (e : TransportError) : GoesOnWith ch (.failed e)

/-- An established channel is used as the rules say. -/
theorem goesOnWith_useChannel (ch : ChannelId) (c : Channel) :
    GoesOnWith ch (w.useChannel route ch c).1 := by
  unfold useChannel
  split
  case h_1 => exact .failed _
  case h_2 =>
    split
    case isTrue => exact .failed _
    case isFalse =>
      dsimp only
      split
      · exact .securing _
      · exact .opened

/-- A server that is found stands at the place that is found. -/
theorem findIdx?_of_find? {server : Server} {p : Server → Bool} (h : w.servers.find? p = some server) :
    ∃ i, w.servers.findIdx? p = some i ∧ w.servers[i]? = some server := by
  rw [List.find?_eq_bind_findIdx?_getElem?] at h
  exact Option.bind_eq_some_iff.1 h

/-- The deadline has passed exactly if the limit is over, counted from where the attempt began. -/
theorem deadline_passed_iff :
    (d.deadline? limit).any (· ≤ w.now) = true ↔ ∃ t ∈ limit, d.since + t ≤ w.now := by
  cases limit <;> simp [Dialing.deadline?]

/-- An address that has failed is followed by the next one. -/
theorem stepOpening_of_failed {reason : DialFailure} (h : w.Ended limit d channel (some reason)) :
    (w.stepOpening route limit (.dialing d channel)).1 = w.nextAddress route d reason := by
  cases h with
  | nobody h =>
    have hnone : w.servers.findIdx? (fun server => server.endpoint == d.endpoint) = none := by
      simpa [List.findIdx?_eq_none_iff] using h
    simp only [stepOpening, attemptAddress, hnone]
  | refused h he =>
    obtain ⟨i, hi, hserver⟩ := findIdx?_of_find? h
    simp only [stepOpening, attemptAddress, hi, hserver, Option.bind_some, he]
    rfl
  | closed hc h hclosed => simp [stepOpening, hc, awaitChannel, h, hclosed]
  | silent hc h hopen ht hlate =>
    have hpassed := deadline_passed_iff.2 ⟨_, ht, hlate⟩
    simp [stepOpening, hc, awaitChannel, h, hopen, hpassed]

/-- After an address has accepted, the opening goes on with the channel of the attempt. -/
theorem goesOnWith_of_accepted (route : Route) (h : w.Ended limit d channel none) :
    ∃ ch ∈ channel, GoesOnWith ch (w.stepOpening route limit (.dialing d channel)).1 := by
  cases h with
  | @accepted ch c hc h =>
    refine ⟨ch, rfl, ?_⟩
    simp only [stepOpening, hc, awaitChannel, h, if_true]
    exact goesOnWith_useChannel ch c

/-- An attempt that does not end at once goes on, on a channel of its own. -/
theorem attemptAddress_of_not_ended (route : Route)
    (h : ∀ failure, ¬ w.Ended limit d none failure) :
    (w.attemptAddress route d).1 = .goOn (.dialing d (some w.channels.length)) ∧
      (w.attemptAddress route d).2.LeadsTo w.channels.length d.endpoint := by
  unfold attemptAddress
  split
  case h_1 hnone =>
    refine absurd (Ended.nobody fun server hserver heq => ?_) (h _)
    simpa [heq] using List.findIdx?_eq_none_iff.1 hnone server hserver
  case h_2 i hi =>
    obtain ⟨hlt, hendpoint, -⟩ := List.findIdx?_eq_some_iff_getElem.1 hi
    have hserver : w.servers[i]? = some w.servers[i] := List.getElem?_eq_getElem hlt
    have hfind : w.servers.find? (fun server => server.endpoint == d.endpoint) = some w.servers[i] := by
      rw [List.find?_eq_bind_findIdx?_getElem?, hi, Option.bind_some, hserver]
    have herror : (w.servers[i].connects.head?.getD .plain).error = none := by
      cases he : (w.servers[i].connects.head?.getD .plain).error with
      | none => rfl
      | some e => exact absurd (.refused hfind he) (h _)
    have hmade (number : ℕ) (script : ConnectScript) : { w with
          servers := w.servers.modify i fun server => { server with connects := server.connects.tail }
          channels := w.channels ++ [Channel.new i number script] }.LeadsTo w.channels.length
        d.endpoint :=
      ⟨_, { w.servers[i] with connects := w.servers[i].connects.tail }, List.getElem?_concat_length,
        by simp [Channel.new, hserver], by simpa using hendpoint⟩
    simp only [hserver, Option.bind_some, herror, true_and]
    split
    · exact hmade _ _
    · exact hmade _ _

/-- What connecting to a route has come to, and how the attempts have ended so far. It began in world
`w₀`, and between the steps the world may go on in any way. -/
inductive Attempts (route : Route) (limit : Option Millis) (w₀ : World) :
    List (Endpoint × Option DialFailure) → World → OpeningStep → Prop
  | begin : Attempts route limit w₀ [] w₀ (w₀.beginOpening route)
  | begins {log : List (Endpoint × Option DialFailure)} {w : World} {d : Dialing}
    (h : Attempts route limit w₀ log w (.goOn (.dialing d none)))
    (hgoes : ∀ failure, ¬ w.Ended limit d none failure) :
    Attempts route limit w₀ log (w.stepOpening route limit (.dialing d none)).2
      (w.stepOpening route limit (.dialing d none)).1
  | ends {log : List (Endpoint × Option DialFailure)} {w : World} {d : Dialing}
    {channel : Option ChannelId} {failure : Option DialFailure}
    (h : Attempts route limit w₀ log w (.goOn (.dialing d channel)))
    (hends : w.Ended limit d channel failure) :
    Attempts route limit w₀ (log ++ [(d.endpoint, failure)])
      (w.stepOpening route limit (.dialing d channel)).2
      (w.stepOpening route limit (.dialing d channel)).1
  | meanwhile {log : List (Endpoint × Option DialFailure)} {w w' : World} {d : Dialing}
    {channel : Option ChannelId} (h : Attempts route limit w₀ log w (.goOn (.dialing d channel)))
    (hw : w.GoesOn route limit (.dialing d channel) w') :
    Attempts route limit w₀ log w' (.goOn (.dialing d channel))

/-- The channel was made by the attempt at the address. -/
def MadeFor (route : Route) (limit : Option Millis) (w₀ : World) (ch : ChannelId) (e : Endpoint) :
    Prop :=
  ∃ log w d, Attempts route limit w₀ log w (.goOn (.dialing d (some ch))) ∧ d.endpoint = e ∧
    w.LeadsTo ch e

/-- What is known of a series when its attempts have ended as the log says. -/
inductive Told (route : Route) (limit : Option Millis) (w₀ : World) (endpoints : List Endpoint)
    (log : List (Endpoint × Option DialFailure)) : OpeningStep → Prop
  /-- The addresses tried so far have failed, and the next one in order is being tried. -/
  | underWay {d : Dialing} {channel : Option ChannelId} (failed : List (Endpoint × DialFailure))
    (hlog : log = allFailed failed)
    (hendpoints : endpoints = failed.map Prod.fst ++ d.endpoint :: d.rest)
    (hchannel : ∀ ch ∈ channel, MadeFor route limit w₀ ch d.endpoint) :
    Told route limit w₀ endpoints log (.goOn (.dialing d channel))
  | accepted {e : Endpoint} {ch : ChannelId} {s : OpeningStep}
    (h : FallsBack route endpoints log (.ok e)) (hchannel : MadeFor route limit w₀ ch e)
    (hs : GoesOnWith ch s) : Told route limit w₀ endpoints log s
  | failed {e : TransportError} (h : FallsBack route endpoints log (.error e)) :
    Told route limit w₀ endpoints log (.failed e)

/-- While a series is under way, the addresses tried have failed, and the next one is tried. -/
theorem Told.of_dialing (h : Told route limit w₀ endpoints log (.goOn (.dialing d channel))) :
    ∃ failed, log = allFailed failed ∧ endpoints = failed.map Prod.fst ++ d.endpoint :: d.rest ∧
      ∀ ch ∈ channel, MadeFor route limit w₀ ch d.endpoint := by
  cases h with
  | underWay failed hlog hendpoints hchannel => exact ⟨failed, hlog, hendpoints, hchannel⟩
  | accepted _ _ hs => cases hs

/-- A series begins with nothing tried. -/
theorem told_begin (hresolve : resolve w₀.names route = .ok endpoints) :
    Told route limit w₀ endpoints [] (w₀.beginOpening route) := by
  unfold beginOpening
  rw [hresolve]
  cases endpoints with
  | nil => exact .failed .nowhere
  | cons e rest => exact .underWay [] rfl rfl nofun

/-- After a failure the next address is tried, or the failure is that of the last one. -/
theorem told_nextAddress {failed : List (Endpoint × DialFailure)}
    (hendpoints : endpoints = failed.map Prod.fst ++ d.endpoint :: d.rest) (reason : DialFailure) :
    Told route limit w₀ endpoints (allFailed failed ++ [(d.endpoint, some reason)])
      (w.nextAddress route d reason) := by
  unfold nextAddress Dialing.fail
  cases hrest : d.rest with
  | nil =>
    rw [hendpoints, hrest]
    exact .failed (.failed failed d.endpoint reason)
  | cons e rest =>
    refine .underWay (failed ++ [(d.endpoint, reason)]) ?_ ?_ nofun
    · simp [allFailed]
    · simp [hendpoints, hrest]

/-- What is told of a series holds of every run: the induction is on the steps, and the attempts that
have ended without success account for the addresses before the one being tried. -/
theorem Attempts.told (h : Attempts route limit w₀ log w s)
    (hresolve : resolve w₀.names route = .ok endpoints) : Told route limit w₀ endpoints log s := by
  induction h with
  | begin => exact told_begin hresolve
  | @begins log w d h hgoes ih =>
    obtain ⟨failed, hlog, hendpoints, -⟩ := ih.of_dialing
    obtain ⟨hstep, hleads⟩ := attemptAddress_of_not_ended route hgoes
    have hnext := Attempts.begins h hgoes
    rw [stepOpening, hstep] at hnext ⊢
    refine .underWay failed hlog hendpoints fun ch hch => ?_
    obtain rfl := Option.some.inj hch
    exact ⟨_, _, d, hnext, rfl, hleads⟩
  | @ends log w d channel failure h hends ih =>
    obtain ⟨failed, rfl, hendpoints, hchannel⟩ := ih.of_dialing
    cases failure with
    | none =>
      obtain ⟨ch, hch, hs⟩ := goesOnWith_of_accepted route hends
      exact .accepted (hendpoints ▸ .accepted failed d.endpoint d.rest) (hchannel ch hch) hs
    | some reason =>
      rw [stepOpening_of_failed hends]
      exact told_nextAddress hendpoints reason
  | meanwhile _ _ ih => exact ih

/-! ## Runs with their attempts -/

/-- An attempt that waits has not ended. -/
theorem not_ended_of_wait (hstep : (w.stepOpening route limit (.dialing d channel)).1 = .wait) :
    ¬ w.Ended limit d channel failure := by
  intro hends
  cases failure with
  | none =>
    obtain ⟨ch, -, hs⟩ := goesOnWith_of_accepted route hends
    rw [hstep] at hs
    cases hs
  | some reason =>
    rw [stepOpening_of_failed hends] at hstep
    exact nextAddress_ne_wait reason hstep

/-- An attempt with a channel that does not wait has ended. -/
theorem exists_ended_of_ne_wait {ch : ChannelId}
    (hstep : (w.stepOpening route limit (.dialing d (some ch))).1 ≠ .wait) :
    ∃ failure, w.Ended limit d (some ch) failure := by
  cases hc : w.channels[ch]? with
  | none => simp [stepOpening, hc] at hstep
  | some c =>
    cases hestablished : c.established with
    | true => exact ⟨_, .accepted hc hestablished⟩
    | false =>
      cases hopen : c.serverOpen with
      | false => exact ⟨_, .closed hc hestablished hopen⟩
      | true =>
        by_cases hlate : ∃ t ∈ limit, d.since + t ≤ w.now
        · obtain ⟨t, ht, hlate⟩ := hlate
          exact ⟨_, .silent hc hestablished hopen ht hlate⟩
        · rw [← deadline_passed_iff] at hlate
          simp [stepOpening, hc, awaitChannel, hestablished, hopen, hlate] at hstep

/-- Every run has its attempts. -/
theorem Dials.exists_attempts (h : Dials route limit w₀ n w s) :
    ∃ log, Attempts route limit w₀ log w s := by
  induction h with
  | begin => exact ⟨[], .begin⟩
  | @step n w d channel s h hstep hs ih =>
    obtain ⟨log, hlog⟩ := ih
    subst hstep
    by_cases hends : ∃ failure, w.Ended limit d channel failure
    · obtain ⟨failure, hends⟩ := hends
      exact ⟨_, hlog.ends hends⟩
    · cases channel with
      | none => exact ⟨_, hlog.begins (not_exists.1 hends)⟩
      | some ch => exact absurd (exists_ended_of_ne_wait hs) hends
  | meanwhile _ hw ih =>
    obtain ⟨log, hlog⟩ := ih
    exact ⟨log, hlog.meanwhile hw⟩

/-- A series with its log is one with a number of steps. -/
theorem Attempts.exists_dials (h : Attempts route limit w₀ log w s) :
    ∃ n, Dials route limit w₀ n w s := by
  induction h with
  | begin => exact ⟨0, .begin⟩
  | @begins log w d h hgoes ih =>
    obtain ⟨n, hn⟩ := ih
    refine ⟨n + 1, hn.step rfl fun hwait => ?_⟩
    rw [stepOpening, (attemptAddress_of_not_ended route hgoes).1] at hwait
    cases hwait
  | ends h hends ih =>
    obtain ⟨n, hn⟩ := ih
    exact ⟨n + 1, hn.step rfl fun hwait => not_ended_of_wait hwait hends⟩
  | meanwhile _ hw ih =>
    obtain ⟨n, hn⟩ := ih
    exact ⟨n, hn.meanwhile hw⟩

/-- While an address is being tried its time is not over, and so what accepts has accepted in time. -/
theorem Attempts.now_le {t : Millis} (h : Attempts route limit w₀ log w (.goOn (.dialing d channel)))
    (hresolve : resolve w₀.names route = .ok endpoints) (ht : t ∈ limit) : w.now ≤ d.since + t := by
  obtain rfl := Option.mem_def.1 ht
  obtain ⟨n, hn⟩ := h.exists_dials
  cases hn.bounded hresolve with
  | underWay hway => exact hway.notLate
  | ended hover => cases hover

/-! ## Hosts without addresses -/

/-- A name that cannot be resolved is an unknown host. -/
theorem kind_of_resolve_error {names : Names} {error : TransportError}
    (h : resolve names route = .error error) : error.kind = .unknownHost := by
  unfold resolve at h
  split at h
  case h_1 => cases h
  case h_2 =>
    split at h
    case isTrue =>
      cases h
      rfl
    case isFalse =>
      split at h <;> cases h <;> rfl

/-- A name that has no addresses is an unknown host. -/
theorem resolve_of_no_addresses {names : Names} (hname : IpAddress.read? route.host = none)
    (hnul : '\x00' ∉ route.host) (hempty : names.lookup route.host = some []) :
    resolve names route = .error (unknownHost route noAddresses) := by
  simp only [resolve, hname, if_neg hnul, hempty]

/-- The addresses of a host are tried in order, each once, until one accepts in time. This one is taken,
and none behind it is tried. If none accepts, the failure of the last one is reported, as a timeout if
its time was over, for the client or for the operating system, and else as an i/o failure. A host
without addresses is unknown.

So it is for a list of addresses whose attempts have any answers, each one its own. So it is too in a
world in which connecting to a route has begun and anything may happen meanwhile: every run has its
attempts, and falls back as these have ended. -/
theorem first_accepting_address_taken (route : Route) (limit : Option Millis) :
    (∀ (answer : ℕ → Endpoint → Answer) (endpoints : List Endpoint),
      (∀ (n : ℕ) e, endpoints[n]? = some e → limit = none → answer n e ≠ .never) →
      ∃ dialed log, dial route limit answer endpoints = some dialed ∧
        EndAsAnswered limit answer log ∧ FallsBack route endpoints log dialed.result ∧
        dialed.tried = log.map Prod.fst ∧
        ((∃ e, dialed.result = .ok e) ↔
          ∃ (n : ℕ) (e : Endpoint), endpoints[n]? = some e ∧ (answer n e).Ends limit none)) ∧
    (∀ (w₀ : World) (endpoints : List Endpoint), resolve w₀.names route = .ok endpoints →
      (∀ n w s, Dials route limit w₀ n w s → ∃ log, Attempts route limit w₀ log w s) ∧
      ∀ log w s, Attempts route limit w₀ log w s →
        Told route limit w₀ endpoints log s ∧
        ∀ d channel, s = .goOn (.dialing d channel) → ∀ t ∈ limit, w.now ≤ d.since + t) ∧
    (∀ (w₀ : World) (error : TransportError), resolve w₀.names route = .error error →
      error.kind = .unknownHost ∧ w₀.beginOpening route = .failed error) ∧
    (∀ names : Names, IpAddress.read? route.host = none → '\x00' ∉ route.host →
      names.lookup route.host = some [] →
      resolve names route = .error (unknownHost route noAddresses)) ∧
    ∀ (failure : DialFailure) (e : Endpoint),
      ((failure.toError route e).kind = .connectTimeout ↔ failure.IsTimeout) ∧
      (¬ failure.IsTimeout → (failure.toError route e).kind = .io) := by
  refine ⟨?_, ?_, ?_, fun names => resolve_of_no_addresses, ?_⟩
  · intro answer endpoints hanswers
    have hends (n : ℕ) (e : Endpoint) (hn : endpoints[n]? = some e) :
        ∃ failure, (answer n e).Ends limit failure := Answer.exists_ends (hanswers n e hn)
    obtain ⟨dialed, log, hdialed, hanswered, hfalls, htried⟩ := exists_log_of_dial hends
    exact ⟨dialed, log, hdialed, hanswered, hfalls, htried, hfalls.exists_ok_iff hanswered⟩
  · intro w₀ endpoints hresolve
    refine ⟨fun n w s h => h.exists_attempts, fun log w s h => ⟨h.told hresolve, ?_⟩⟩
    rintro d channel rfl t ht
    exact h.now_le hresolve ht
  · intro w₀ error hresolve
    refine ⟨kind_of_resolve_error hresolve, ?_⟩
    rw [beginOpening, hresolve]
    rfl
  · exact fun failure e =>
      ⟨failure.kind_toError_eq_iff route e, failure.kind_toError_of_not_isTimeout route e⟩

/-- A world in which the host `h` has two addresses, and only at the second one there is a server. -/
def halfServedHost : World :=
  let service : Service := .init ⟨⟨false, none, none, none⟩, ⟨1⟩, .standard⟩ ⟨1, 1, .standard⟩
  .init service false 0 [(['h'], [.v4 [10, 0, 0, 1], .v4 [10, 0, 0, 2]])]
    [⟨⟨.v4 [10, 0, 0, 2], 0, 80⟩, false, [], []⟩]

/-- The first address refuses, and a connection to the second one is opened. -/
theorem attempts_halfServedHost :
    ∃ w, Attempts ⟨.http, ['h'], 80⟩ (some 10) halfServedHost
      [(⟨.v4 [10, 0, 0, 1], 0, 80⟩, some (.refused SystemError.connectionRefused.toIoError)),
        (⟨.v4 [10, 0, 0, 2], 0, 80⟩, none)] w (.opened 0) := by
  let route : Route := ⟨.http, ['h'], 80⟩
  let first : Dialing := ⟨⟨.v4 [10, 0, 0, 1], 0, 80⟩, 0, [⟨.v4 [10, 0, 0, 2], 0, 80⟩]⟩
  let second : Dialing := ⟨⟨.v4 [10, 0, 0, 2], 0, 80⟩, 0, []⟩
  let w₁ := (halfServedHost.stepOpening route (some 10) (.dialing first none)).2
  let w₂ := (w₁.stepOpening route (some 10) (.dialing second none)).2
  have h₀ : Attempts route (some 10) halfServedHost [] halfServedHost (.goOn (.dialing first none)) :=
    .begin
  have h₁ : Attempts route (some 10) halfServedHost
      [(first.endpoint, some (.refused SystemError.connectionRefused.toIoError))] w₁
      (.goOn (.dialing second none)) := h₀.ends (.nobody (by decide))
  have h₂ : Attempts route (some 10) halfServedHost
      [(first.endpoint, some (.refused SystemError.connectionRefused.toIoError))] w₂
      (.goOn (.dialing second (some 0))) := by
    refine h₁.begins fun failure hends => ?_
    cases hends with
    | nobody h => exact absurd rfl (h ⟨second.endpoint, false, [], []⟩ (by decide))
    | refused h he =>
      obtain rfl := Option.some.inj h
      cases he
  exact ⟨_, h₂.ends (.accepted rfl rfl)⟩

/-- The same address is tried twice in vain, first until the operating system gives up and then until
the limit has passed; the third one accepts, and the fourth is not tried. In the world above the second
address is the first to accept. -/
theorem first_accepting_address_taken_third :
    let route : Route := ⟨.http, ['h'], 80⟩
    let one : Endpoint := ⟨.v4 [10, 0, 0, 1], 0, 80⟩
    let two : Endpoint := ⟨.v4 [10, 0, 0, 2], 0, 80⟩
    let answer : ℕ → Endpoint → Answer
      | 0, _ => .refuses 1 ⟨.timedOut, none⟩
      | 1, _ => .never
      | _, _ => .accepts 3
    let log : List (Endpoint × Option DialFailure) :=
      [(one, some (.refused SystemError.connectionRefused.toIoError)), (two, none)]
    (∃ log, EndAsAnswered (some 10) answer log ∧
      FallsBack route [one, one, two, one] log (.ok two) ∧ log.map Prod.fst = [one, one, two]) ∧
    (∃ w, Attempts route (some 10) halfServedHost log w (.opened 0)) ∧
      FallsBack route [one, two] log (.ok two) := by
  intro route one two answer log
  obtain ⟨hknown, hworld, -⟩ := first_accepting_address_taken route (some 10)
  refine ⟨?_, attempts_halfServedHost, ?_⟩
  · obtain ⟨dialed, log, hdialed, hanswered, hfalls, htried, -⟩ :=
      hknown answer [one, one, two, one] fun _ _ _ => nofun
    have hgivenUp : (answer 0 one).outcome? (some 10) = some (some (.refused ⟨.timedOut, none⟩), 1) :=
      rfl
    have hsilent : (answer 1 one).outcome? (some 10) = some (some .silent, 10) := rfl
    have hlast : Dialing.run route (some 10) (fun n => answer (n + 2)) ⟨two, 11, [one]⟩ =
        some ⟨.ok two, [two], 3⟩ := Dialing.run_accepted rfl
    have hrun : Dialing.run route (some 10) answer ⟨one, 0, [one, two, one]⟩ =
        some ⟨.ok two, [one, one, two], 14⟩ :=
      Dialing.run_next hgivenUp (Dialing.run_next hsilent hlast)
    obtain rfl := Option.some.inj (hdialed.symm.trans hrun)
    exact ⟨log, hanswered, hfalls, htried.symm⟩
  · obtain ⟨w, h⟩ := attempts_halfServedHost
    obtain ⟨-, htold⟩ := hworld halfServedHost [one, two] rfl
    cases (htold log w _ h).1 with
    | accepted hfalls _ _ =>
      obtain ⟨n, hn, hlog⟩ := hfalls.exists_accepted
      match n with
      | 0 => cases hlog
      | 1 =>
        cases hlog
        exact hfalls

end Simulation.World
end PooledHttp
