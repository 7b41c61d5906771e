import PooledHttp.Dial.Endpoint
import PooledHttp.Route

/-!
# Opening a connection

A host name stands for a list of addresses, and these are tried in order until one accepts. Each
address has the whole time limit for itself. If none accepts, the failure of the last one is
reported. `Dialing` is such a series in progress, `Dialing.fail` goes on after a failed address, and
`dial` runs the whole series against answers that are known.
-/

set_option autoImplicit false

namespace PooledHttp

/-- The addresses that names stand for. -/
abbrev Names := List (Text × List IpAddress)

/-- The failure to find an address. -/
def unknownHost (route : Route) (text : String) : TransportError :=
  .new .unknownHost route.name text

/-- The text when a host has an entry without addresses. -/
def noAddresses : String := "no addresses resolved"

/-- The text when a name has no entry. -/
def nameNotKnown : String := "failed to lookup address information: Name or service not known"

/-- The text when a host cannot be a name at all. -/
def nameHasNul : String := "file name contained an unexpected NUL byte"

/-- The endpoints to try for a route. A host that is an address stands for itself, and no name holds
a NUL character. -/
def resolve (names : Names) (route : Route) : Except TransportError (List Endpoint) :=
  match IpAddress.read? route.host with
  | some address => .ok [⟨address, 0, route.port.toNat⟩]
  | none =>
    if '\x00' ∈ route.host then .error ((unknownHost route nameHasNul).causedBy nameHasNul)
    else match names.lookup route.host with
      | none => .error ((unknownHost route nameNotKnown).causedBy nameNotKnown)
      | some [] => .error (unknownHost route noAddresses)
      | some addresses => .ok (addresses.map fun a => ⟨a, 0, route.port.toNat⟩)

/-- Why an address did not accept. -/
inductive DialFailure where
  | refused (e : IoError)
  /-- The time limit passed without an answer. -/
  | silent
  deriving DecidableEq, Repr

namespace DialFailure

/-- The failure as it is reported for the route. -/
def toError (failure : DialFailure) (route : Route) (endpoint : Endpoint) : TransportError :=
  match failure with
  | .refused e =>
    (TransportError.new (if e.kind = .timedOut then .connectTimeout else .io) route.name
      s!"connect to {endpoint.name} failed: {e.message}").causedBy e.message
  | .silent => .new .connectTimeout route.name s!"connect to {endpoint.name} timed out"

end DialFailure

/-- A series of addresses in progress: the one being tried, the time from which it is tried, and
those that are left. -/
structure Dialing where
  endpoint : Endpoint
  since : Millis
  rest : List Endpoint
  deriving DecidableEq, Repr

namespace Dialing

/-- Start with the first address. -/
def start (route : Route) (endpoints : List Endpoint) (now : Millis) :
    Except TransportError Dialing :=
  match endpoints with
  | [] => .error (unknownHost route noAddresses)
  | e :: rest => .ok ⟨e, now, rest⟩

/-- Go on to the next address, or report the failure of the last one. -/
def fail (d : Dialing) (route : Route) (failure : DialFailure) (now : Millis) :
    Except TransportError Dialing :=
  match d.rest with
  | [] => .error (failure.toError route d.endpoint)
  | e :: rest => .ok ⟨e, now, rest⟩

/-- The time at which the address being tried is given up. -/
def deadline? (d : Dialing) (limit : Option Millis) : Option Millis := limit.map (d.since + ·)

end Dialing

/-- What an address answers, and after which time. -/
inductive Answer where
  | accepts (after : Millis)
  | refuses (after : Millis) (e : IoError)
  | never
  deriving DecidableEq, Repr

namespace Answer

/-- What becomes of an attempt under a time limit, and how long it takes: an answer counts only if it
comes before the limit. Without a limit and an answer the attempt does not end. -/
def outcome? (limit : Option Millis) : Answer → Option (Option DialFailure × Millis)
  | .accepts after => match limit with
    | some t => if after < t then some (none, after) else some (some .silent, t)
    | none => some (none, after)
  | .refuses after e => match limit with
    | some t => if after < t then some (some (.refused e), after) else some (some .silent, t)
    | none => some (some (.refused e), after)
  | .never => limit.map fun t => (some .silent, t)

end Answer

/-- What became of a series: the address that accepted or the failure, the addresses tried, in
order, and the time it took. -/
structure Dialed where
  result : Except TransportError Endpoint
  tried : List Endpoint
  elapsed : Millis

namespace Dialing

/-- The addresses left become fewer when a series goes on. -/
theorem rest_length_of_fail {d next : Dialing} {route : Route} {failure : DialFailure}
    {now : Millis} (h : d.fail route failure now = .ok next) :
    next.rest.length < d.rest.length := by
  unfold fail at h
  split at h
  · cases h
  · rename_i e rest heq
    cases h
    simp [heq]

/-- Run a series to its end, where the attempts from here on get the answers `answer 0`, `answer 1` and
so on, which may depend on the address. -/
def run (route : Route) (limit : Option Millis) (answer : Nat → Endpoint → Answer) (d : Dialing) :
    Option Dialed :=
  match (answer 0 d.endpoint).outcome? limit with
  | none => none
  | some (none, time) => some ⟨.ok d.endpoint, [d.endpoint], time⟩
  | some (some failure, time) =>
    match _h : d.fail route failure (d.since + time) with
    | .error e => some ⟨.error e, [d.endpoint], time⟩
    | .ok next =>
      (run route limit (fun n => answer (n + 1)) next).map fun later =>
        { later with tried := d.endpoint :: later.tried, elapsed := time + later.elapsed }
termination_by d.rest.length
decreasing_by exact rest_length_of_fail (by assumption)

end Dialing

/-- Try addresses in order, each with the whole time limit. Every attempt has an answer of its own. -/
def dial (route : Route) (limit : Option Millis) (answer : Nat → Endpoint → Answer)
    (endpoints : List Endpoint) : Option Dialed :=
  match Dialing.start route endpoints 0 with
  | .error e => some ⟨.error e, [], 0⟩
  | .ok d => d.run route limit answer

end PooledHttp
