import PooledHttp.Client.Reading
import PooledHttp.Simulation.Script

/-!
# Simulated channels

A channel is one connection between a client and a simulated server, from the attempt to establish
it until both sides have closed it. What the server sends waits in `inbound` until the client's end
can take it.

The client's end works on its own: whenever something changes, `Channel.settle` takes what has
arrived as far as it can. The head of a response goes to the request that waits for it, and the body
goes part by part into a mailbox of its own, which holds one part at a time. While the mailbox is
full nothing behind it is noticed, not even that the server has closed the connection. A mailbox
outlives the exchange: once all of a body is in it the channel is free for the next request, whether
or not somebody has read the body.
-/

set_option autoImplicit false

namespace PooledHttp.Simulation

/-- The bodies of the responses on a channel are numbered in the order of the responses. -/
abbrev BodyNumber := Nat

/-- What the client's end of a channel is doing. -/
inductive ChannelPhase where
  /-- The connection is being established or secured. -/
  | opening
  /-- No request is outstanding. -/
  | idle
  /-- A request has been sent and the head of the response has not come. -/
  | awaiting
  /-- The body of a response is coming. -/
  | receiving (body : BodyNumber) (framing : Framing)
  | closed
  deriving DecidableEq, Repr

/-- How a body has ended. -/
inductive BodyEnd where
  | complete
  | broken (kind : IoKind)
  deriving DecidableEq, Repr

/-- The way of a body to its reader. -/
structure Mailbox where
  /-- The part that has not been read. -/
  waiting : Option Bytes
  /-- What follows the part. -/
  ending : Option BodyEnd
  /-- Whether nobody is going to read the body. -/
  abandoned : Bool
  deriving DecidableEq, Repr

/-- What becomes of a request: the head of the response and the number of its body, or a fault. -/
inductive Answered where
  | head (h : ResponseHead) (body : BodyNumber)
  | fault (f : ConnectionFault)
  deriving DecidableEq, Repr

/-- A channel. -/
structure Channel where
  /-- The server, and the channel's number among the server's channels. -/
  server : Nat
  number : Nat
  script : ConnectScript
  /-- The socket options that the client has set. -/
  noDelay : Option Bool
  keepAlive : Option Bool
  established : Bool
  /-- The server's answer to the handshake. -/
  handshake : Option Bool
  serverOpen : Bool
  /-- Whether the server still takes requests. -/
  serving : Bool
  /-- Whether the server takes the next octets that come for a failed handshake. -/
  expectsHandshake : Bool
  /-- Whether a request has been sent that the server has not read. -/
  unread : Bool
  phase : ChannelPhase
  inbound : List Signal
  /-- What the request that is outstanding has come to. -/
  answer : Option Answered
  mailboxes : List Mailbox
  /-- Whether the channel stays open after the exchange. -/
  persistent : Bool
  /-- Whether the client may still send on the channel. -/
  wanted : Bool
  deriving DecidableEq, Repr

namespace Channel

/-- A channel that is about to be established. -/
def new (server number : Nat) (script : ConnectScript) : Channel where
  server := server
  number := number
  script := script
  noDelay := none
  keepAlive := none
  established := script.delay == 0 && !script.blackhole
  handshake := none
  serverOpen := true
  serving := true
  expectsHandshake := false
  unread := false
  phase := .opening
  inbound := []
  answer := none
  mailboxes := []
  persistent := true
  wanted := true

/-- Whether the client's end is closed. -/
def isDead (c : Channel) : Bool := c.phase == .closed

/-- Whether the channel is established and neither side has closed it. -/
def isOpen (c : Channel) : Bool := c.established && !c.isDead && c.serverOpen

/-- Whether a request is outstanding or its body is coming. -/
def isBusy (c : Channel) : Bool :=
  match c.phase with
  | .awaiting | .receiving _ _ => true
  | .opening | .idle | .closed => false

/-- The client's end is closed. What arrives from now on is lost. -/
def close (c : Channel) : Channel := { c with phase := .closed, inbound := [] }

/-- Change a mailbox. -/
def setMailbox (c : Channel) (i : BodyNumber) (f : Mailbox → Mailbox) : Channel :=
  { c with mailboxes := c.mailboxes.modify i f }

/-- The response has come to its end: the channel is free again, or it is closed. -/
def finish (c : Channel) : Channel :=
  if c.persistent && c.wanted then { c with phase := .idle } else c.close

/-- The request that is outstanding has failed. -/
def fail (c : Channel) (f : ConnectionFault) : Channel := { c with answer := some (.fault f) }.close

/-- The head of the response has come. The lines of the response can ask for the channel to be
closed after it. -/
def begin (c : Channel) (h : ResponseHead) (framing : Framing) : Channel :=
  let i := c.mailboxes.length
  let stays := c.persistent && !h.wantsClose && framing != .final
  let answered (ending : Option BodyEnd) : Channel := { c with
    answer := some (.head h i)
    mailboxes := c.mailboxes ++ [⟨none, ending, false⟩]
    persistent := stays }
  match framing with
  | .bodiless | .final => (answered (some .complete)).finish
  | .marked | .untilClosed => { answered none with phase := .receiving i framing }

/-- A body has come to its end. -/
def endBody (c : Channel) (i : BodyNumber) (how : BodyEnd) : Channel :=
  let c := c.setMailbox i fun m => { m with ending := some how }
  match how with
  | .complete => c.finish
  | .broken _ => c.close

/-- A body that nobody reads gets one more chance: the channel stays open if the next thing that has
arrived is the end of the body. -/
def drain (c : Channel) : Signal → Channel
  | .data _ true | .endMark => c.finish
  | _ => c.close

/-- The client's end takes a signal while a body is coming; `none` while the mailbox is full. -/
def receiveBody? (c : Channel) (i : BodyNumber) (framing : Framing) (m : Mailbox) (s : Signal) :
    Option Channel :=
  if m.abandoned then some (c.drain s)
  else if m.waiting.isSome then none
  else some (match s with
    | .data bytes isLast =>
      let c := c.setMailbox i fun m => { m with waiting := some bytes }
      if isLast then c.endBody i .complete else c
    | .endMark => c.endBody i .complete
    | .closed =>
      if framing = .untilClosed then (c.endBody i .complete).close
      else c.endBody i (.broken .unexpectedEof)
    | .fault f => c.endBody i (.broken (f.ioKind?.getD .other))
    | .interim | .head _ _ => c.endBody i (.broken .invalidInput))

/-- The client's end takes a signal; `none` when it cannot take it yet. Nothing is expected on an
idle channel, and a body without a head is no response. -/
def receive? (c : Channel) (s : Signal) : Option Channel :=
  match c.phase with
  | .opening => none
  | .idle | .closed => some c.close
  | .awaiting => some (match s with
    | .interim => c
    | .head h framing => c.begin h framing
    | .data _ _ | .endMark => c.fail (.garbled .version)
    | .closed => c.fail .incomplete
    | .fault f => c.fail f)
  | .receiving i framing =>
    match c.mailboxes[i]? with
    | none => some c.close
    | some m => c.receiveBody? i framing m s

/-- The client's end takes signals as far as it can. -/
def receiveAll (c : Channel) : List Signal → Channel
  | [] => { c with inbound := [] }
  | s :: later =>
    match c.receive? s with
    | some c => c.receiveAll later
    | none => { c with inbound := s :: later }

/-- The client's end takes what has arrived. A body that nobody reads and of which nothing has
arrived is given up, and so is a channel on which the client is not going to send unless a body is
coming. -/
def settle (c : Channel) : Channel :=
  let c := c.receiveAll c.inbound
  match c.phase with
  | .idle | .awaiting => if c.wanted then c else c.close
  | .receiving i _ => if (c.mailboxes[i]?).any (·.abandoned) then c.close else c
  | .opening | .closed => c

/-! ## What happens to a channel -/

/-- The channel can be used for requests. -/
def start (c : Channel) : Channel := { c with phase := .idle }.settle

/-- Something reaches the client. -/
def deliver (c : Channel) (signals : List Signal) : Channel :=
  if !c.serverOpen then c
  else if c.isDead then { c with serverOpen := !(.closed ∈ signals) }
  else { c with inbound := c.inbound ++ signals, serverOpen := !(.closed ∈ signals) }.settle

/-- The server closes the channel. When it has left a request unread, the channel is reset. -/
def closeByServer (c : Channel) : Channel :=
  let signal := if c.unread then Signal.fault (.broken .connectionReset) else .closed
  { c.deliver [signal] with serverOpen := false }

/-- A request goes out, which the server reads or leaves unread. -/
def request (c : Channel) (wantsClose unread : Bool) : Channel :=
  { c with phase := .awaiting, answer := none, persistent := !wantsClose, unread := unread }.settle

/-- A request comes to nothing because the channel is closed. -/
def refuse (c : Channel) : Channel := { c with answer := some (.fault .closed) }

/-- Take what has become of the request that is outstanding. -/
def takeAnswer? (c : Channel) : Option (Answered × Channel) :=
  c.answer.map fun a => (a, { c with answer := none })

/-- Take the next part of a body, or its end. -/
def takePart? (c : Channel) (i : BodyNumber) : Option (Arrival × Channel) :=
  match c.mailboxes[i]? with
  | none => none
  | some m =>
    match m.waiting, m.ending with
    | some bytes, _ => some (.data bytes, (c.setMailbox i fun m => { m with waiting := none }).settle)
    | none, some .complete => some (.finished, c)
    | none, some (.broken kind) => some (.fault (.bodyBroken kind), c)
    | none, none => none

/-- Nobody is going to read a body. -/
def dropBody (c : Channel) (i : BodyNumber) : Channel :=
  (c.setMailbox i fun m => { m with abandoned := true }).settle

/-- The client is not going to send on the channel any more. It stays open as long as a body is
coming that somebody reads. -/
def abandon (c : Channel) : Channel := { c with wanted := false }.settle

end Channel
end PooledHttp.Simulation
