import PooledHttp.Error.Transport
import PooledHttp.Message

/-!
# Reading a response

What arrives on a connection after a request is a head, then parts of the body, then the end of the
body, or a fault at any point. `Reading` collects it. The time limit bounds each wait for the next
arrival and not the whole response: it starts afresh with every arrival. `Reading.run` reads a whole
series of arrivals whose delays are known.
-/

set_option autoImplicit false

namespace PooledHttp

/-- What can arrive on a connection that has a request outstanding. -/
inductive Arrival where
  | head (h : ResponseHead)
  | data (bytes : Bytes)
  /-- A part that carries no data, such as trailing header lines. -/
  | trailer
  /-- The end of the body. -/
  | finished
  | fault (f : ConnectionFault)
  deriving DecidableEq, Repr

/-- Why a response could not be read. -/
inductive ReadFailure where
  | timedOut
  | fault (f : ConnectionFault)
  deriving DecidableEq, Repr

/-- The failure as it is reported for a route. -/
def ReadFailure.toError (failure : ReadFailure) (route : String) : TransportError :=
  match failure with
  | .timedOut => .new .socketTimeout route "read timed out"
  | .fault f => f.toError route

/-- A response that is being read. -/
structure Reading where
  limit : Option Millis
  /-- The time of the last arrival, or of sending the request. -/
  since : Millis
  head : Option ResponseHead
  body : Bytes
  deriving DecidableEq, Repr

namespace Reading

/-- What has become of a response. -/
inductive Progress where
  | waiting (r : Reading)
  | complete (r : Response)
  | failed (failure : ReadFailure)

/-- Nothing has arrived yet. -/
def start (limit : Option Millis) (now : Millis) : Reading := ⟨limit, now, none, []⟩

/-- The time at which the wait for the next arrival is over. -/
def deadline? (r : Reading) : Option Millis := r.limit.map (r.since + ·)

/-- Whether the wait for the next arrival is over. -/
def isOverdue (r : Reading) (now : Millis) : Bool := r.deadline?.any (· ≤ now)

/-- Take in what has arrived. Parts of a body without a head do not occur and are passed over. -/
def receive (r : Reading) (now : Millis) : Arrival → Progress
  | .head h => .waiting { r with since := now, head := some h }
  | .data bytes => .waiting { r with since := now, body := r.body ++ bytes }
  | .trailer => .waiting { r with since := now }
  | .finished => match r.head with
    | some h => .complete ⟨h, r.body⟩
    | none => .waiting { r with since := now }
  | .fault f => .failed (.fault f)

/-- Read a series of arrivals, each with its delay after the one before it. The answer is the
response or the failure, with the time of it; `none` when the arrivals run out first and no limit
ends the wait. -/
def run (r : Reading) : List (Millis × Arrival) → Option (Except ReadFailure Response × Millis)
  | [] => r.deadline?.map fun t => (.error .timedOut, t)
  | (delay, arrival) :: rest =>
    let arrives := r.since + delay
    if r.isOverdue arrives then some (.error .timedOut, r.deadline?.getD arrives)
    else match r.receive arrives arrival with
      | .waiting r' => run r' rest
      | .complete response => some (.ok response, arrives)
      | .failed failure => some (.error failure, arrives)

end Reading
end PooledHttp
