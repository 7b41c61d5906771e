import PooledHttp.Simulation.World

/-!
# Opening a connection in the simulated world

The steps from a route to a channel that can be used: resolve the host, try the addresses in turn,
set the socket options, and secure the channel when the route asks for it. Each step either goes on
at once, waits for a server or for the clock, or ends the opening.
-/

set_option autoImplicit false

namespace PooledHttp.Simulation

/-- What a step of an opening comes to. -/
inductive OpeningStep where
  | goOn (opening : Opening)
  | wait
  | opened (channel : ChannelId)
  | failed (e : TransportError)
  deriving DecidableEq, Repr

namespace World

/-- Go on to the next address after a failure, or fail. -/
def nextAddress (w : World) (route : Route) (d : Dialing) (failure : DialFailure) : OpeningStep :=
  match d.fail route failure w.now with
  | .ok d => .goOn (.dialing d none)
  | .error e => .failed e

/-- Begin with the first address of the route's host. -/
def beginOpening (w : World) (route : Route) : OpeningStep :=
  match (resolve w.names route).bind fun endpoints => Dialing.start route endpoints w.now with
  | .ok d => .goOn (.dialing d none)
  | .error e => .failed e

/-- Make an attempt to connect to an address. Where no server is, the connection is refused. -/
def attemptAddress (w : World) (route : Route) (d : Dialing) : OpeningStep × World :=
  match w.servers.findIdx? fun server => server.endpoint == d.endpoint with
  | none => (w.nextAddress route d (.refused SystemError.connectionRefused.toIoError), w)
  | some i =>
    let script := ((w.servers[i]?).bind fun server => server.connects.head?).getD .plain
    let w := { w with servers := w.servers.modify i fun server =>
      { server with connects := server.connects.tail } }
    match script.error with
    | some e => (w.nextAddress route d (.refused e.toIoError), w)
    | none =>
      let ch := w.channels.length
      let number := w.channels.countP fun c => c.server == i
      let w := { w with channels := w.channels ++ [Channel.new i number script] }
      let w := if script.delay == 0 || script.blackhole then w
        else w.plan ch [(script.delay, .establish)]
      (.goOn (.dialing d (some ch)), w)

/-- Set the socket options of a channel. An option counts as set even if setting it fails. -/
def setOptions (w : World) (route : Route) (ch : ChannelId) (script : ConnectScript) :
    Option TransportError × World :=
  let socket := w.service.pool.settings.socket
  let w := w.setChannel ch fun c => { c with noDelay := some socket.noDelay }
  match script.noDelayError with
  | some e => (some (.ofIo route.name e.toIoError), w)
  | none =>
    let w := w.setChannel ch fun c => { c with keepAlive := some socket.keepAlive }
    (script.keepAliveError.map fun e => .ofIo route.name e.toIoError, w)

/-- The failure to secure a channel, which is closed. -/
def failHandshake (w : World) (route : Route) (ch : ChannelId) : OpeningStep × World :=
  (.failed (.new .secureChannel route.name "handshake failure"), w.setChannel ch Channel.close)

/-- A new connection meets its server, which may want to secure it. A server that does not never
answers a client that asks for that. -/
def meetServer (w : World) (route : Route) (ch : ChannelId) (c : Channel) : World :=
  if (w.servers[c.server]?).any (·.secure) then
    w.plan ch (c.script.securing (if route.isSecure then some route.host else none))
  else w

/-- Go on with a channel that is established. -/
def useChannel (w : World) (route : Route) (ch : ChannelId) (c : Channel) : OpeningStep × World :=
  match w.setOptions route ch c.script with
  | (some e, w) => (.failed e, w.setChannel ch Channel.close)
  | (none, w) =>
    if route.isSecure && !canAskFor route.host then w.failHandshake route ch
    else (if route.isSecure then .goOn (.securing ch w.now) else .opened ch, w.meetServer route ch c)

/-- Wait for a channel to be established. -/
def awaitChannel (w : World) (route : Route) (limit : Option Millis) (d : Dialing) (ch : ChannelId)
    (c : Channel) : OpeningStep × World :=
  if c.established then w.useChannel route ch c
  else if !c.serverOpen then
    (w.nextAddress route d (.refused SystemError.connectionReset.toIoError),
      w.setChannel ch Channel.close)
  else if (d.deadline? limit).any (· ≤ w.now) then
    (w.nextAddress route d .silent, w.setChannel ch Channel.close)
  else (.wait, w)

/-- Wait for the answer to a handshake. -/
def awaitHandshake (w : World) (route : Route) (ch : ChannelId) (since : Millis) (c : Channel) :
    OpeningStep × World :=
  if c.handshake = some true && c.serverOpen then (.opened ch, w)
  else if c.handshake = some false || !c.serverOpen then w.failHandshake route ch
  else if (w.service.pool.settings.socket.readTimeout.map (since + ·)).any (· ≤ w.now) then
    (.failed (.new .socketTimeout route.name "TLS handshake timed out"),
      w.setChannel ch Channel.close)
  else (.wait, w)

/-- One step of an opening. -/
def stepOpening (w : World) (route : Route) (limit : Option Millis) :
    Opening → OpeningStep × World
  | .begin => (w.beginOpening route, w)
  | .dialing d none => w.attemptAddress route d
  | .dialing d (some ch) => match w.channels[ch]? with
    | some c => w.awaitChannel route limit d ch c
    | none => (.wait, w)
  | .securing ch since => match w.channels[ch]? with
    | some c => w.awaitHandshake route ch since c
    | none => (.wait, w)

/-- The time at which the wait of an opening is over. -/
def openingDeadline? (w : World) (limit : Option Millis) : Opening → Option Millis
  | .dialing d (some _) => d.deadline? limit
  | .securing _ since => w.service.pool.settings.socket.readTimeout.map (since + ·)
  | .begin | .dialing _ none => none

/-- An opening is given up. -/
def abortOpening (w : World) : Opening → World
  | .dialing _ (some ch) | .securing ch _ => w.setChannel ch Channel.close
  | .begin | .dialing _ none => w

end World
end PooledHttp.Simulation
