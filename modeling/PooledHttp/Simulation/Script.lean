import PooledHttp.Dial.Basic
import PooledHttp.Error.Transport
import PooledHttp.Message

/-!
# Scripted servers

A simulated server follows a script: what becomes of each connection attempt, and how it reacts to
each request. `ExchangeScript.plan` turns a reaction into a plan: what the server does on the
connection, and after which time. What reaches the client is a series of signals.
-/

set_option autoImplicit false

namespace PooledHttp.Simulation

/-- How a server takes part in securing a connection. -/
inductive Handshake where
  /-- The server shows a certificate for the names in `isCertified`. -/
  | proper
  /-- The server offers something that the client does not accept. -/
  | improper
  /-- The server answers with a response that is not secured. -/
  | plainAnswer
  /-- The server closes the connection. -/
  | hangUp
  /-- The server does not answer. -/
  | stalled
  deriving DecidableEq, Repr

/-- What becomes of a connection attempt. -/
structure ConnectScript where
  /-- The attempt fails at once. -/
  error : Option SystemError
  /-- The connection is established after this time. -/
  delay : Millis
  /-- The connection is never established. -/
  blackhole : Bool
  /-- Setting the option fails. -/
  noDelayError : Option SystemError
  /-- Setting the option fails. -/
  keepAliveError : Option SystemError
  handshake : Handshake
  /-- The handshake is answered after this time. -/
  handshakeDelay : Millis
  deriving DecidableEq, Repr

/-- An attempt that succeeds at once. -/
def ConnectScript.plain : ConnectScript := ⟨none, 0, false, none, none, .proper, 0⟩

/-- The body of a scripted response. -/
inductive Content where
  /-- All at once, or the connection is closed after the first octets. -/
  | whole (body : Bytes) (cut : Option Nat)
  /-- In parts, each after some time, and the end after some time; or the connection is closed in
  place of the end. -/
  | parts (parts : List (Millis × Bytes)) (endDelay : Millis) (cut : Bool)
  deriving DecidableEq, Repr

/-- A scripted response: the status and the lines of its head as they are written, and its body. The
server may close the connection some time after it. -/
structure Reply where
  status : Nat
  lines : List (Text × Text)
  content : Content
  closeAfter : Option Millis
  deriving DecidableEq, Repr

/-- How a server reacts to a request. -/
inductive Reaction where
  | reply (r : Reply)
  /-- The connection is closed without an answer, or in the middle of the head. -/
  | hangUp
  /-- The answer is not a response, and the connection is closed. -/
  | garbage
  | stall
  /-- The connection is closed without reading the request. -/
  | reset
  /-- The client fails to read. -/
  | readError (e : SystemError)
  deriving DecidableEq, Repr

/-- A reaction, after some time. -/
structure ExchangeScript where
  delay : Millis
  reaction : Reaction
  deriving DecidableEq, Repr

/-- An empty response at once. -/
def ExchangeScript.plain : ExchangeScript := ⟨0, .reply ⟨200, [], .whole [] none, none⟩⟩

/-- A server: its endpoint, whether its connections are secured, and its scripts. -/
structure Server where
  endpoint : Endpoint
  secure : Bool
  connects : List ConnectScript
  exchanges : List ExchangeScript
  deriving DecidableEq, Repr

/-- How the end of a body shows. -/
inductive Framing where
  /-- There is no body. -/
  | bodiless
  /-- There is none either, and the connection carries no further exchange. -/
  | final
  /-- The body shows its own end. -/
  | marked
  /-- The body ends when the server closes the connection. -/
  | untilClosed
  deriving DecidableEq, Repr

/-- What reaches the client on a connection. -/
inductive Signal where
  /-- A head that announces another one. -/
  | interim
  | head (h : ResponseHead) (framing : Framing)
  /-- A part of a body. The last part of a body of known length is the end of it. -/
  | data (bytes : Bytes) (isLast : Bool)
  /-- The mark after the last part of a body whose length is not known beforehand. -/
  | endMark
  /-- The server has closed the connection. -/
  | closed
  | fault (f : ConnectionFault)
  deriving DecidableEq, Repr

/-- What a server does on a connection. -/
inductive ServerAction where
  | establish
  | answerHandshake (accepted : Bool)
  /-- The server takes the client's first octets for a failed handshake. -/
  | awaitHandshake
  /-- Something is sent to the client. -/
  | send (signals : List Signal)
  /-- The server takes no more requests. -/
  | retire
  | close
  deriving DecidableEq, Repr

/-! ## Securing a connection -/

/-- The name that the servers' certificate is for. It is also for each name with one more label in
front. -/
def certifiedName : Text := "example.com".toList

/-- The addresses that the servers' certificate is for. -/
def certifiedAddresses : List IpAddress :=
  [.v4 [10, 0, 0, 1], .v4 [10, 0, 0, 2], .v4 [10, 0, 0, 3], .v6 [0, 0, 0, 0, 0, 0, 0, 1]]

/-- Whether a label can stand for the star of a certificate: letters, digits and hyphens, or the
star itself. -/
def matchesStar (label : Text) : Bool :=
  label == ['*'] || (!label.isEmpty && label.all fun c => c.isAlphanum || c == '-')

/-- Whether a host is among the names and addresses that the servers' certificate is for. A host
that starts with a dot stands for all names that end with it, and one such name is enough. -/
def isCertified (host : Text) : Bool :=
  match IpAddress.read? host with
  | some address => address ∈ certifiedAddresses
  | none =>
    let host := Text.lower host
    match host with
    | '.' :: _ :: _ => host.isSuffixOf certifiedName || host == '.' :: certifiedName
    | _ => host == certifiedName ||
      match Text.cutOnce? '.' host with
      | some (label, rest) => matchesStar label && rest == certifiedName
      | none => false

/-- The longest name that a client can ask a server for, in octets. -/
def maxServerName : Nat := 255

/-- Whether a client can ask for the host: an address needs no asking, and a name is neither empty
nor too long. -/
def canAskFor (host : Text) : Bool :=
  (IpAddress.read? host).isSome ||
    (!host.isEmpty && decide (Text.octetLength host ≤ maxServerName))

/-- The status with which a server answers something that is no handshake. -/
def badRequest : Nat := 400

/-- What a server that secures its connections does on a new one. The client asks to secure the
connection for a host, or does not ask and sends requests at once. -/
def ConnectScript.securing (script : ConnectScript) (asked : Option Text) :
    List (Millis × ServerAction) :=
  let later (action : ServerAction) := [(script.handshakeDelay, action)]
  match asked, script.handshake with
  | _, .stalled => []
  | some host, .proper => later (.answerHandshake (isCertified host))
  | some _, _ => later (.answerHandshake false)
  | none, .proper | none, .improper => later .awaitHandshake
  | none, .plainAnswer => later (.send [.head ⟨badRequest, .empty⟩ .untilClosed, .closed])
  | none, .hangUp => later .close

/-! ## Responses -/

/-- The largest number of lines in the head of a response. -/
def maxLines : Nat := 100

/-- A line of a head as the client reads it: the name is what comes before the first colon and is
kept in lower case, and the value loses the blanks around it. -/
def readLine? (line : Text × Text) : Option (Text × Text) :=
  match Text.cutOnce? ':' (line.1 ++ ':' :: ' ' :: line.2) with
  | some (name, value) =>
    if !name.isEmpty && name.all isTokenChar && Header.isValue value then
      some (Text.lower name, Text.trim value)
    else none
  | none => none

/-- The head of a response as the client reads it. A status has three digits, and the lines are read
in order up to the first fault. One line more than the given ones frames the body. -/
def Reply.head (r : Reply) : Except HeadFault ResponseHead :=
  if r.status < 100 || 999 < r.status then .error .status
  else match (r.lines.take maxLines).mapM readLine? with
    | none => .error .header
    | some lines => if maxLines ≤ r.lines.length then .error .tooLarge else .ok ⟨r.status, ⟨lines⟩⟩

/-- Whether a status announces another response. -/
def isInterim (status : Nat) : Bool := decide (status < 200) && status != 101

/-- Whether the connection is no longer one for requests after a response: the server switches to
another protocol, or opens a tunnel. -/
def switches (method : Method) (status : Nat) : Bool :=
  status == 101 || (method == .connect && decide (200 ≤ status) && decide (status < 300))

/-- Whether a response to the method has a body. -/
def hasBody (method : Method) (status : Nat) : Bool :=
  method != .head && status != 204 && status != 304

/-- The most octets that a client reads at once in the beginning. -/
def firstRead : Nat := 8192

/-- Octets in portions as they are read: the first one of at most `size` octets, the next one of at
most `next`, and each later one of at most twice as many as the one before it. -/
def portions (size next : Nat) (bytes : Bytes) : List Bytes :=
  if _h : size = 0 ∨ bytes.length ≤ size then [bytes]
  else bytes.take size :: portions next (2 * next) (bytes.drop size)
termination_by bytes.length
decreasing_by
  rw [List.length_drop]
  omega

/-- The number of octets of a head: the status line, the lines as they are written, the line that
frames a body of this length, and the empty line. -/
def Reply.headLength (r : Reply) (bodyLength : Nat) : Nat :=
  let written := r.lines.foldr
    (fun line n => Text.octetLength line.1 + Text.octetLength line.2 + 4 + n) 0
  "HTTP/1.1 200 OK\x0d\n".length + written +
    ("content-length: \x0d\n\x0d\n".length + (Decimal.write bodyLength).length)

/-- The signals of a body of known length, of which the client gets the first octets. -/
def Reply.wholeSignals (r : Reply) (body : Bytes) (sent : Nat) : List Signal :=
  if body.isEmpty || sent = 0 then []
  else
    let parts := portions (firstRead - r.headLength body.length) (2 * firstRead) (body.take sent)
    parts.dropLast.map (.data · false) ++
      (parts.getLast?.toList.map (.data · (decide (body.length ≤ sent))))

/-- A part of a body, unless it is empty. -/
def partSignals (bytes : Bytes) : List Signal := if bytes.isEmpty then [] else [.data bytes false]

/-- How the end of the body of a reply shows. -/
def Reply.framing (r : Reply) (method : Method) : Framing :=
  if switches method r.status then .final
  else if !hasBody method r.status then .bodiless
  else match r.content with
    | .whole body _ => if body.isEmpty then .bodiless else .marked
    | .parts _ _ _ => .marked

/-- How the head of a reply reaches the client. -/
def Reply.headSignal (r : Reply) (method : Method) : Signal :=
  match r.head with
  | .error f => .fault (.garbled f)
  | .ok h => if isInterim r.status then .interim else .head h (r.framing method)

/-- What a server does for a reply, each with the time after the one before it. A reply without a
body cannot be cut. -/
def Reply.plan (r : Reply) (method : Method) : List (Millis × ServerAction) :=
  let head := r.headSignal method
  let ending : List (Millis × ServerAction) := match r.closeAfter with
    | some time => [(0, .retire), (time, .close)]
    | none => []
  if !hasBody method r.status then (0, .send [head]) :: ending
  else match r.content with
    | .whole body none => (0, .send (head :: r.wholeSignals body body.length)) :: ending
    | .whole body (some n) => [(0, .send (head :: r.wholeSignals body n)), (0, .close)]
    | .parts parts endDelay cut =>
      let sends := (0, ServerAction.send [head]) ::
        parts.map fun (time, bytes) => (time, .send (partSignals bytes))
      if cut then sends ++ [(0, .close)] else sends ++ (endDelay, .send [.endMark]) :: ending

/-- What a server does in reaction to a request, each with the time after the one before it. -/
def ExchangeScript.plan (script : ExchangeScript) (method : Method) :
    List (Millis × ServerAction) :=
  match script.reaction with
  | .reply r =>
    match r.plan method with
    | [] => []
    | (time, action) :: rest => (script.delay + time, action) :: rest
  | .hangUp => [(script.delay, .close)]
  | .garbage => [(script.delay, .send [.fault (.garbled .version)]), (0, .close)]
  | .stall => []
  | .reset => [(0, .send [.fault (.broken .connectionReset)]), (0, .close)]
  | .readError e => [(script.delay, .send [.fault (.broken e.kind)])]

/-- A plan with the time of each action. -/
def timed (now : Millis) : List (Millis × ServerAction) → List (Millis × ServerAction)
  | [] => []
  | (time, action) :: rest => (now + time, action) :: timed (now + time) rest

end PooledHttp.Simulation
