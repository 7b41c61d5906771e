import PooledHttp.Manager
import PooledHttp.Simulation.Channel
import PooledHttp.Simulation.Report

/-!
# The simulated world

The world of a simulation has a pool with its clients, the servers with their channels, the tasks
that have been started, and an agenda of what servers are going to do. Time is that of the pool. This
module has the world and the elementary changes to it: events in the pool with the broadcasts that
they owe, changes to a channel, and the cleaning up of channels that nobody uses any more.
-/

set_option autoImplicit false

namespace PooledHttp.Simulation

open Pool Client

/-- Channels are numbered in the order in which they are made. -/
abbrev ChannelId := Nat

/-- The body of a response: the channel it comes on, and its number there. -/
structure BodyId where
  channel : ChannelId
  number : BodyNumber
  deriving DecidableEq, Repr

/-- Tasks are numbered in the order in which they are started. -/
abbrev TaskId := Nat

/-- How far the opening of a connection has come. -/
inductive Opening where
  | begin
  | dialing (d : Dialing) (channel : Option ChannelId)
  | securing (channel : ChannelId) (since : Millis)
  deriving DecidableEq, Repr

/-- What is done with the body of a response. -/
inductive BodyUse where
  | read
  | hold
  | drop
  deriving DecidableEq, Repr

/-- How far a request on a leased connection has come. -/
inductive Sending where
  | begin
  | awaiting
  | reading (head : ResponseHead) (body : BodyId) (collected : Bytes)
  deriving DecidableEq, Repr

/-- What a task does. -/
inductive Job where
  | lease (lease : LeaseId) (limit : Option Millis) (opening : Opening)
  /-- A call, which is opening a connection, or reading a body if there is one. -/
  | call (call : CallId) (opening : Opening) (body : Option BodyId)
  /-- A request on a lease that is kept under the name `owner`. -/
  | send (owner : String) (lease : LeaseId) (request : WireRequest) (use : BodyUse)
      (progress : Sending)
  /-- Reading a body that was left unread. -/
  | read (body : BodyId) (collected : Bytes)
  deriving DecidableEq, Repr

/-- A task, and whether it is still running. -/
structure Task where
  name : String
  job : Job
  running : Bool
  deriving DecidableEq, Repr

/-- Something that a server is going to do. -/
structure Appointment where
  time : Millis
  channel : ChannelId
  action : ServerAction
  deriving DecidableEq, Repr

/-- The world. -/
structure World where
  service : Service
  /-- Whether the pool belongs to a manager, which shuts it down in the end. -/
  managed : Bool
  clients : Nat
  names : Names
  servers : List Server
  channels : List Channel
  /-- The channel of each connection of the pool. -/
  wires : List ChannelId
  tasks : List Task
  /-- The tasks that can go on, in order. -/
  ready : List TaskId
  /-- The tasks whose leases are parked, in the order in which they were parked. -/
  parked : List TaskId
  agenda : List Appointment
  /-- The leases that are held, by the names of the tasks that got them. -/
  held : List (String × LeaseId)
  /-- The bodies left unread, by the names of the tasks that left them. -/
  bodies : List (String × BodyId)
  done : List Done
  seen : List Seen

namespace World

/-- A world at the start. -/
def init (service : Service) (managed : Bool) (clients : Nat) (names : Names)
    (servers : List Server) : World :=
  { service, managed, clients, names, servers, channels := [], wires := [], tasks := [], ready := [],
    parked := [], agenda := [], held := [], bodies := [], done := [], seen := [] }

/-- The time. -/
def now (w : World) : Millis := w.service.pool.now

/-- Let a task go on after those that already can. -/
def awaken (w : World) (t : TaskId) : World :=
  if t ∈ w.ready then w else { w with ready := w.ready ++ [t] }

/-- Let all running tasks go on that satisfy `p`. -/
def awakenWhere (w : World) (p : TaskId → Task → Bool) : World :=
  (w.tasks.zipIdx.filter fun (task, t) => task.running && p t task).foldl
    (fun w (_, t) => w.awaken t) w

/-- Let all running tasks go on but those whose leases are parked. -/
def stir (w : World) : World := w.awakenWhere fun t _ => !(t ∈ w.parked)

/-- Make the broadcasts that are owed. The parked tasks go on in the order in which they were
parked. -/
def broadcast (w : World) : World :=
  let pool := w.service.pool
  if pool.owed + pool.owedByRemovals = 0 then w
  else
    let broadcasts := List.replicate pool.owed (Client.Event.pool .broadcast) ++
      List.replicate pool.owedByRemovals (Client.Event.pool .broadcastRemoval)
    let service := broadcasts.foldl Service.step w.service
    w.parked.foldl awaken { w with service := service, parked := [] }

/-- An event of the pool's clients. -/
def happen (w : World) (e : Client.Event) : World :=
  { w with service := w.service.step e }.broadcast

/-- An event of the pool. -/
def inPool (w : World) (e : Pool.Event) : World := w.happen (.pool e)

/-- Tell the pool of connections whose channels are closed. -/
def reportClosed (w : World) : World :=
  (w.wires.zipIdx.filter fun (ch, c) =>
    w.service.pool.live c && (w.channels[ch]?).any (·.isDead)).foldl
    (fun w (_, c) => w.inPool (.closed c)) w

/-- Change a channel. When it is no longer busy, others can go on. -/
def setChannel (w : World) (ch : ChannelId) (f : Channel → Channel) : World :=
  let busy (w : World) : Bool := (w.channels[ch]?).any (·.isBusy)
  let changed := { w with channels := w.channels.modify ch f }.reportClosed
  if busy w && !busy changed then changed.stir else changed

/-- The channel of a connection of the pool. -/
def channelOf? (w : World) (c : ConnId) : Option (ChannelId × Channel) :=
  (w.wires[c]?).bind fun ch => (w.channels[ch]?).map fun channel => (ch, channel)

/-- The channel of the connection that a lease holds. -/
def channelHeld? (w : World) (l : LeaseId) : Option (ChannelId × Channel) :=
  (w.service.pool.held? l).bind fun h => w.channelOf? h.conn

/-- Put something on the agenda. -/
def plan (w : World) (ch : ChannelId) (actions : List (Millis × ServerAction)) : World :=
  let entries := (timed w.now actions).map fun (time, action) => Appointment.mk time ch action
  { w with agenda := w.agenda ++ entries }

/-- Change the job of a task. -/
def setJob (w : World) (t : TaskId) (job : Job) : World :=
  { w with tasks := w.tasks.modify t fun task => { task with job := job } }

/-- Start a task. -/
def spawn (w : World) (name : String) (job : Job) : World :=
  { w with tasks := w.tasks ++ [Task.mk name job true] }.awaken w.tasks.length

/-- End a task without an outcome. -/
def stop (w : World) (t : TaskId) : World :=
  { w with
    tasks := w.tasks.modify t fun task => { task with running := false }
    ready := w.ready.filter (· != t)
    parked := w.parked.filter (· != t) }

/-- Record an outcome. -/
def record (w : World) (name : String) (outcome : Outcome) : World :=
  { w with done := w.done ++ [⟨name, w.now, outcome⟩] }

/-- End a task with an outcome. -/
def finish (w : World) (t : TaskId) (outcome : Outcome) : World :=
  match w.tasks[t]? with
  | some task => (w.stop t).record task.name outcome
  | none => w

/-- Keep a lease under a name; a lease that was kept under it is given up. -/
def keepLease (w : World) (name : String) (l : LeaseId) : World :=
  match w.held.lookup name with
  | some old =>
    let others := w.held.filter fun e => e.1 != name
    { w with held := others ++ [(name, l)] }.inPool (.drop old)
  | none => { w with held := w.held ++ [(name, l)] }

/-- Take a lease that is kept under a name. -/
def takeLease? (w : World) (name : String) : Option (LeaseId × World) :=
  (w.held.lookup name).map fun l => (l, { w with held := w.held.filter fun e => e.1 != name })

/-- Nobody is going to read a body. -/
def dropBody (w : World) (b : BodyId) : World := w.setChannel b.channel (·.dropBody b.number)

/-- Keep an unread body under a name; a body that was kept under it is given up. -/
def keepBody (w : World) (name : String) (b : BodyId) : World :=
  match w.bodies.lookup name with
  | some old =>
    let others := w.bodies.filter fun e => e.1 != name
    { w with bodies := others ++ [(name, b)] }.dropBody old
  | none => { w with bodies := w.bodies ++ [(name, b)] }

/-- Take a body that is kept under a name. -/
def takeBody? (w : World) (name : String) : Option (BodyId × World) :=
  (w.bodies.lookup name).map fun b => (b, { w with bodies := w.bodies.filter fun e => e.1 != name })

/-- Whether the pool, while it exists, or a lease has a connection. -/
def connectionKept (w : World) (c : ConnId) : Bool := w.service.hasPool && w.service.pool.owns c

/-- Give up the channels of connections that neither the pool nor a lease has. -/
def cleanUp (w : World) : World :=
  (w.wires.zipIdx.filter fun (ch, c) =>
    (w.channels[ch]?).any (!·.isDead) && !w.connectionKept c).foldl
    (fun w (ch, _) => w.setChannel ch Channel.abandon) w

end World
end PooledHttp.Simulation
