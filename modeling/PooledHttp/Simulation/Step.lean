import PooledHttp.Simulation.Clock

/-!
# The steps of a simulation

A simulation is a list of steps. Each step does one thing at once and then lets everything happen
that needs no time; `advance` lets time pass. `World.run` performs all steps and gives the report.
-/

set_option autoImplicit false

namespace PooledHttp.Simulation

open Pool Client

/-- Where a lease is to lead. -/
inductive Destination where
  | url (t : Text)
  /-- The parts of a route; a port that is not a natural number is left out. -/
  | parts (scheme host : Text) (port : Option Nat)
  deriving DecidableEq, Repr

/-- How a request is given to a client. -/
inductive Via where
  /-- By a method of its own, without body and header. -/
  | bare (method : Method)
  /-- By a method of its own, with a body. -/
  | withBody (method : Method)
  /-- With all its parts. -/
  | parts
  /-- As a whole, with a URI that has been read before. -/
  | whole (version : Version)
  | unknown (name : String)
  deriving DecidableEq, Repr

/-- The parts of a request, as they are written. -/
structure Written where
  method : Text
  target : Text
  header : List (Text × Text)
  body : Bytes
  deriving DecidableEq, Repr

/-- A step. -/
inductive Step where
  | advance (time : Millis)
  | stats
  | request (name : String) (client : Nat) (via : Via) (written : Written)
  /-- A limit that is left out is the clients' limit. -/
  | lease (name : String) (destination : Destination) (wait connect : Option Millis)
  | send (name owner : String) (written : Written) (use : BodyUse)
  | readBody (name kept : String)
  | dropBody (kept : String)
  | release (name : String) (keepAlive : Millis)
  | drop (name : String)
  | cancel (name : String)
  | closeExpired
  | closeIdle (time : Millis)
  | shutdown
  | isClosed
  | dropManager
  | samePool
  | serverClose (server number : Nat)
  | routeStats (destination : Destination)
  | unknown (name : String)
  deriving DecidableEq, Repr

/-- The port of a route that is given by its parts. -/
def portOf : Option Nat → Except Refusal UInt16
  | none => .error (.malformed "port must be an unsigned integer")
  | some n =>
    if n ≤ Decimal.maxPort then .ok (UInt16.ofNat n) else .error (.malformed "port does not fit u16")

/-- The scheme of a route that is given by its parts. -/
def schemeOf (name : Text) : Except Refusal Scheme :=
  if name = Scheme.http.name then .ok .http
  else if name = Scheme.https.name then .ok .https
  else .error (.malformed s!"unknown scheme {String.ofList name}")

/-- The route of a destination. Of its parts the scheme is looked at first. -/
def Destination.route : Destination → Except Refusal Route
  | .url t => match Uri.parse t with
    | .error e => .error (.uri e)
    | .ok uri => match Route.ofUri uri with
      | .error e => .error (.client e)
      | .ok route => .ok route
  | .parts scheme host port => do
    let scheme ← schemeOf scheme
    let port ← portOf port
    return .new scheme host port

/-- A request from its parts. The header is looked at first, then the method, then the URL. A URL
that cannot be read is the client's to refuse, unless the URI has to be there beforehand. -/
def Written.request (written : Written) (via : Via) : Except Refusal Request := do
  let header ← (Header.ofLines written.header).mapError .header
  let (method, header, body) ← match via with
    | .bare method => pure (method, Header.empty, [])
    | .withBody method => pure (method, Header.empty, written.body)
    | .unknown name => throw (.malformed s!"unknown via {name}")
    | .parts | .whole _ => match Method.ofName? written.method with
      | some method => pure (method, header, written.body)
      | none => throw .method
  match Uri.parse written.target, via with
  | .ok uri, .whole version => return ⟨method, uri, version, header, body⟩
  | .ok uri, _ => return ⟨method, uri, .http11, header, body⟩
  | .error e, .whole _ => throw (.uri e)
  | .error e, _ => throw (.client (.invalidRequest e.message))

/-- A request for a leased connection. A `Host` line is added when there is none. -/
def Written.wireRequest (written : Written) : Except Refusal WireRequest := do
  let header ← (Header.ofLines written.header).mapError .header
  let method ← match Method.ofName? written.method with
    | some method => pure method
    | none => throw .method
  let uri ← (Uri.parse written.target).mapError .uri
  let header := if header.has hostName then header else header.insert hostName "h".toList
  return ⟨method, uri.display, .http11, header, written.body⟩

namespace World

/-- Give a request to a client. -/
def giveRequest (w : World) (name : String) (client : Nat) (via : Via) (written : Written) :
    Result × World :=
  if w.clients ≤ client then (.noClient, w)
  else match written.request via with
    | .error e => (.nothing, w.record name (.failed e))
    | .ok request =>
      let i := w.service.calls.length
      (.nothing, (w.happen (.submit request)).spawn name (.call i .begin none))

/-- Ask for a lease. -/
def askLease (w : World) (name : String) (destination : Destination)
    (wait connect : Option Millis) : Result × World :=
  if !w.service.hasPool then (.noPool, w)
  else match destination.route with
    | .error e => (.refused e, w)
    | .ok route =>
      let limit (given standard : Option Millis) : Option Millis := match given with
        | some ms => limit? ms
        | none => standard
      let settings := w.service.settings.request
      let l := w.service.pool.leases.length
      (.nothing, (w.inPool (.start route (limit wait settings.leaseTimeout))).spawn name
        (.lease l (limit connect settings.connectTimeout) .begin))

/-- Send a request on a leased connection. A request that cannot be made fails, and the lease stays as
it is. -/
def sendOnLease (w : World) (name owner : String) (written : Written) (use : BodyUse) :
    Result × World :=
  match w.takeLease? owner with
  | none => (.noLease, w)
  | some (l, taken) => match written.wireRequest with
    | .error e => (.nothing, w.record name (.failed e))
    | .ok request => (.nothing, taken.spawn name (.send owner l request use .begin))

/-- The channel of the connection that a lease holds is closed. -/
def closeHeld (w : World) (l : LeaseId) : World :=
  match w.channelHeld? l with
  | some (ch, _) => w.setChannel ch Channel.close
  | none => w

/-- Give up a task. A connection on which it has sent a request is closed. -/
def cancelTask (w : World) (t : TaskId) (job : Job) : World :=
  let w := w.stop t
  match job with
  | .lease l _ opening => (w.inPool (.cancel l)).abortOpening opening
  | .call i opening _ =>
    let w := match (w.service.calls[i]?).map (·.stage) with
      | some (.exchanging a _) => w.closeHeld a.lease
      | _ => w
    (w.happen (.cancel i)).abortOpening opening
  | .send _ l _ _ .begin => w.inPool (.drop l)
  | .send _ l _ _ _ => (w.closeHeld l).inPool (.drop l)
  | .read body _ => w.dropBody body

/-- Something that is only possible while the pool exists. -/
def withPool (w : World) (f : World → Result × World) : Result × World :=
  if w.service.hasPool then f w else (.noPool, w)

/-- What a step does at once. -/
def enact (w : World) : Step → Result × World
  | .advance _ | .stats => (.nothing, w)
  | .request name client via written => w.giveRequest name client via written
  | .lease name destination wait connect => w.askLease name destination wait connect
  | .send name owner written use => w.sendOnLease name owner written use
  | .readBody name kept => match w.takeBody? kept with
    | none => (.noBody, w)
    | some (body, w) => (.nothing, w.spawn name (.read body []))
  | .dropBody kept => match w.takeBody? kept with
    | none => (.noBody, w)
    | some (body, w) => (.nothing, w.dropBody body)
  | .release name keepAlive => match w.takeLease? name with
    | none => (.noLease, w)
    | some (l, w) => (.nothing, w.inPool (.release l keepAlive))
  | .drop name => match w.takeLease? name with
    | none => (.noLease, w)
    | some (l, w) => (.nothing, w.inPool (.drop l))
  | .cancel name =>
    match (w.tasks.zipIdx.filter fun (task, _) => task.running && task.name == name).getLast? with
    | none => (.finished, w)
    | some (task, t) => (.cancelled, w.cancelTask t task.job)
  | .closeExpired => w.withPool fun w =>
    (.count (w.service.pool.books.closeExpired w.service.pool.live w.now).1, w.inPool .closeExpired)
  | .closeIdle time => w.withPool fun w =>
    (.count (w.service.pool.books.closeIdle w.service.pool.live w.now time).1,
      w.inPool (.closeIdle time))
  | .shutdown => w.withPool fun w => (.nothing, w.inPool .shutdown)
  | .isClosed => w.withPool fun w => (.flag w.service.pool.books.closed, w)
  | .dropManager =>
    let w := w.happen (.abandon w.managed)
    (.clientPool (w.service.hasPool && w.clients != 0), w)
  | .samePool => (.flag true, w)
  | .serverClose server number =>
    match w.channels.findIdx? fun c => c.server == server && c.number == number with
    | none => (.noConnection, w)
    | some ch => (.nothing, (w.setChannel ch Channel.closeByServer).stir)
  | .routeStats destination => w.withPool fun w => match destination.route with
    | .error e => (.refused e, w)
    | .ok route => (.stats (w.service.pool.routeStats? route), w)
  | .unknown name => (.unknownStep name, w)

/-- The figures of all routes, in the order of their printed forms. -/
def routeFigures (w : World) : List (Text × Stats) :=
  let pool := w.service.pool
  (pool.books.routeList.filterMap fun route =>
    (pool.routeStats? route).map fun s => (route.display, s)).mergeSort
    fun a b => textLe a.1 b.1

/-- The report of a step that has been performed. -/
def stepReport (w : World) (result : Result) : StepReport :=
  let whilePool {α : Type} (a : α) : Option α := if w.service.hasPool then some a else none
  { time := w.now
    result := result
    done := w.done.mergeSort fun a b => nameLe a.name b.name
    seen := w.seen.mergeSort fun a b =>
      decide (a.server < b.server) || (a.server == b.server && decide (a.number ≤ b.number))
    channels := (List.range w.servers.length).map fun i =>
      w.channels.countP fun c => c.server == i && c.isOpen
    stats := whilePool w.service.pool.stats
    routes := whilePool w.routeFigures }

/-- Perform a step. -/
def perform (w : World) (step : Step) : StepReport × World :=
  let (result, w) := { w with done := [], seen := [] }.enact step
  let w := settle patience w
  let w := match step with
    | .advance time => advance (w.now + time) patience w
    | _ => w
  let w := w.cleanUp
  (w.stepReport result, w)

/-- Perform steps in order. -/
def performAll (w : World) : List Step → List StepReport × World
  | [] => ([], w)
  | step :: later =>
    let (report, w) := w.perform step
    let (reports, w) := performAll w later
    (report :: reports, w)

/-- The socket options of the channels of each server. -/
def socketOptions (w : World) : List (List SocketOptions) :=
  (List.range w.servers.length).map fun i =>
    (w.channels.filter fun c => c.server == i).map fun c => ⟨c.noDelay, c.keepAlive⟩

/-- Run a simulation. -/
def run (w : World) (steps : List Step) : Report :=
  let (reports, w) := w.performAll steps
  { steps := reports
    waiting := ((w.tasks.filter fun task => task.running).map (·.name)).mergeSort nameLe
    options := w.socketOptions }

end World
end PooledHttp.Simulation
