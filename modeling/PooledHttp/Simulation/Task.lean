import PooledHttp.Simulation.Opening

/-!
# Running the tasks of a simulation

A task goes on until it has to wait for a server, for the clock, for another lease to end, or for a
body to be read. `World.stepTask` is one step of a task; it says whether the task can go on.
-/

set_option autoImplicit false

namespace PooledHttp.Simulation

open Pool Client

namespace World

/-- A server reads a request and reacts by its script. -/
def react (w : World) (ch : ChannelId) (c : Channel) (request : WireRequest) : World :=
  let script := ((w.servers[c.server]?).bind fun server => server.exchanges.head?).getD .plain
  let read := if script.reaction = .reset then none else some request
  let w := { w with
    servers := w.servers.modify c.server fun server =>
      { server with exchanges := server.exchanges.tail }
    seen := w.seen ++ [Seen.mk c.server c.number read] }
  w.plan ch (script.plan request.method)

/-- A request goes out on a channel. A server that takes no more requests leaves it unread, and so
does one that expects the client to secure the channel. If such a server is waiting for a handshake
already, it closes the channel. -/
def sendRequest (w : World) (ch : ChannelId) (request : WireRequest) : World :=
  match w.channels[ch]? with
  | none => w
  | some c =>
    if c.isDead then w.setChannel ch Channel.refuse
    else
      let insecure := (w.servers[c.server]?).any (·.secure) && c.handshake.isNone
      let unread := insecure || !c.serving
      let w := w.setChannel ch fun c => c.request request.header.wantsClose unread
      if c.expectsHandshake then w.plan ch [(0, .close)]
      else if unread then w
      else w.react ch c request

/-- Take what has become of the request on a channel. -/
def takeAnswer? (w : World) (ch : ChannelId) : Option (Answered × World) :=
  ((w.channels[ch]?).bind Channel.takeAnswer?).map fun (a, c) => (a, w.setChannel ch fun _ => c)

/-- Take the next part of a body, or its end. -/
def takePart? (w : World) (b : BodyId) : Option (Arrival × World) :=
  ((w.channels[b.channel]?).bind (·.takePart? b.number)).map fun (arrival, c) =>
    (arrival, w.setChannel b.channel fun _ => c)

/-- A channel is ready for use, and becomes the connection of a lease. -/
def wireUp (w : World) (l : LeaseId) (ch : ChannelId) : World :=
  ({ w with wires := w.wires ++ [ch] }.inPool (.connected l)).setChannel ch Channel.start

/-- One step of a lease that is in progress. The answer has how far its opening has come, and
whether the lease can go on. -/
def stepLease (w : World) (t : TaskId) (l : LeaseId) (lease : Lease) (limit : Option Millis)
    (opening : Opening) : Opening × Bool × World :=
  match lease.phase with
  | .claiming =>
    let w := w.inPool (.claim l [])
    let waits := w.service.pool.phase? l == some (.parked false)
    (.begin, true, if waits then { w with parked := w.parked ++ [t] } else w)
  | .readying c =>
    match w.channelOf? c.conn with
    | none => (.begin, false, w)
    | some (_, channel) =>
      if channel.isDead then (.begin, true, w.inPool (.unready l))
      else if channel.isBusy then (.begin, false, w)
      else (.begin, true, w.inPool (.ready l))
  | .connecting =>
    match w.stepOpening lease.route limit opening with
    | (.goOn opening, w) => (opening, true, w)
    | (.wait, w) => (opening, false, w)
    | (.opened ch, w) => (.begin, true, w.wireUp l ch)
    | (.failed e, w) => (.begin, true, w.inPool (.refused l e))
  | .parked true => (.begin, true, w.inPool (.resume l))
  | .parked false =>
    if lease.deadline.any (· ≤ w.now) then
      (.begin, true, { w with parked := w.parked.filter (· != t) }.inPool (.expire l))
    else (.begin, false, w)
  | .held _ | .ended _ => (.begin, true, w)

/-- One step of a task that leases a connection. -/
def stepLeaseTask (w : World) (t : TaskId) (task : Task) (l : LeaseId) (limit : Option Millis)
    (opening : Opening) : Bool × World :=
  match w.service.pool.leases[l]? with
  | none => (false, w.stop t)
  | some lease =>
    match lease.phase with
    | .held h =>
      (false, (w.keepLease task.name l).finish t (.leased lease.route h.reused h.useCount))
    | .ended how =>
      match leaseOutcome? lease.route (.ended how) with
      | some (.error e) => (false, w.finish t (.failed (.client e)))
      | _ => (false, w.stop t)
    | _ =>
      let (opening, goesOn, w) := w.stepLease t l lease limit opening
      (goesOn, w.setJob t (.lease l limit opening))

/-- One step of a call whose attempt is leasing a connection. When the lease has come to an end, the
call proceeds, and a request goes out on the connection. -/
def stepLeasing (w : World) (t : TaskId) (i : CallId) (call : Call) (a : Attempt)
    (opening : Opening) : Bool × World :=
  match w.service.pool.leases[a.lease]? with
  | none => (false, w)
  | some lease =>
    if lease.phase.inProgress then
      let limit := w.service.settings.request.connectTimeout
      let (opening, goesOn, w) := w.stepLease t a.lease lease limit opening
      (goesOn, w.setJob t (.call i opening none))
    else
      let w := (w.happen (.proceed i)).setJob t (.call i .begin none)
      match w.channelHeld? a.lease,
          call.request.prepare w.service.settings.request.expectContinue a.route with
      | some (ch, _), .ok request => (true, w.sendRequest ch request)
      | _, _ => (true, w)

/-- One step of a call that waits for the head of the response, or reads its body. When it has
waited too long, its channel is closed. -/
def stepExchanging (w : World) (t : TaskId) (i : CallId) (a : Attempt) (reading : Reading)
    (body : Option BodyId) : Bool × World :=
  match w.channelHeld? a.lease with
  | none => (false, w)
  | some (ch, _) =>
    let next : Option (Arrival × Option BodyId × World) := match body with
      | none => (w.takeAnswer? ch).map fun (answered, w) => match answered with
        | .head h n => (.head h, some ⟨ch, n⟩, w)
        | .fault f => (.fault f, none, w)
      | some b => (w.takePart? b).map fun (arrival, w) => (arrival, some b, w)
    match next with
    | some (arrival, body, w) => (true, (w.setJob t (.call i .begin body)).happen (.arrive i arrival))
    | none =>
      if reading.isOverdue w.now then
        (true, ((w.setChannel ch Channel.close).setJob t (.call i .begin none)).happen (.overdue i))
      else (false, w)

/-- One step of a call. -/
def stepCall (w : World) (t : TaskId) (i : CallId) (opening : Opening) (body : Option BodyId) :
    Bool × World :=
  match w.service.calls[i]? with
  | none => (false, w.stop t)
  | some call =>
    match call.stage with
    | .leasing a => w.stepLeasing t i call a opening
    | .exchanging a reading => w.stepExchanging t i a reading body
    | .finished _ (.ok response) =>
      (false, w.finish t (.responded response.head (.whole response.body)))
    | .finished _ (.error e) => (false, w.finish t (.failed (.client e)))
    | .cancelled => (false, w.stop t)

/-- One step of a request on a leased connection. When the head of the response has come, the body is
read, kept unread or dropped. -/
def stepSend (w : World) (t : TaskId) (task : Task) (owner : String) (l : LeaseId)
    (request : WireRequest) (use : BodyUse) (progress : Sending) : Bool × World :=
  match w.service.pool.leases[l]?, w.channelHeld? l with
  | some lease, some (ch, c) =>
    let failure (f : ConnectionFault) : TransportError := f.toError lease.route.name
    let ended (w : World) (outcome : Outcome) : Bool × World :=
      (false, (w.keepLease owner l).finish t outcome)
    let goOn (w : World) (progress : Sending) : Bool × World :=
      (true, w.setJob t (.send owner l request use progress))
    match progress with
    | .begin =>
      if c.isDead then ended w (.failed (.client (.transport (failure .closed))))
      else if c.isBusy then (false, w)
      else goOn (w.sendRequest ch request) .awaiting
    | .awaiting =>
      match w.takeAnswer? ch with
      | none => (false, w)
      | some (.fault f, w) => ended w (.failed (.client (.transport (failure f))))
      | some (.head head n, w) =>
        match use with
        | .read => goOn w (.reading head ⟨ch, n⟩ [])
        | .hold => ended (w.keepBody task.name ⟨ch, n⟩) (.responded head .held)
        | .drop => ended (w.dropBody ⟨ch, n⟩) (.responded head .dropped)
    | .reading head body collected =>
      match w.takePart? body with
      | none => (false, w)
      | some (.data bytes, w) => goOn w (.reading head body (collected ++ bytes))
      | some (.finished, w) => ended w (.responded head (.whole collected))
      | some (.fault f, w) => ended w (.responded head (.broken (failure f)))
      | some (_, w) => (true, w)
  | _, _ => (false, w.stop t)

/-- The route named in the failure of reading a body that was left unread. -/
def bodyRoute : String := "http://body:0"

/-- One step of reading a body that was left unread. -/
def stepRead (w : World) (t : TaskId) (body : BodyId) (collected : Bytes) : Bool × World :=
  match w.takePart? body with
  | none => (false, w)
  | some (.data bytes, w) => (true, w.setJob t (.read body (collected ++ bytes)))
  | some (.finished, w) => (false, w.finish t (.body (.whole collected)))
  | some (.fault f, w) => (false, w.finish t (.body (.broken (f.toError bodyRoute))))
  | some (_, w) => (true, w)

end World
end PooledHttp.Simulation
