import PooledHttp.Error.Transport

/-!
# Configuration

Seven settings describe a connection manager: two caps, four time limits in milliseconds, and the
number of attempts a request may take. A time limit of zero means that there is none.
`Configuration.validate` states what a usable configuration has to satisfy; the settings of the
socket, of a request and of the pool are read off a configuration.
-/

set_option autoImplicit false

namespace PooledHttp

/-- The reasons why a configuration is not usable. -/
inductive ConfigError where
  /-- A setting that has to be positive is zero. -/
  | zero (setting : String)
  /-- The cap over all routes is below the cap of a single route. -/
  | totalBelowPerRoute (maxTotal maxPerRoute : Nat)
  deriving DecidableEq, Repr

/-- The wording of each reason. -/
def ConfigError.message : ConfigError → String
  | .zero setting => s!"{setting} must be greater than zero"
  | .totalBelowPerRoute maxTotal maxPerRoute =>
    s!"max_total ({maxTotal}) must be at least max_per_route ({maxPerRoute})"

/-- The settings of a connection manager. -/
structure Configuration where
  /-- Cap on the open connections of one route. -/
  maxPerRoute : UInt64
  /-- Cap on the open connections of all routes. -/
  maxTotal : UInt64
  /-- Time limit for reading, for connections that have no limit of their own. -/
  socketTimeout : UInt64
  /-- Time limit for connecting to one address. -/
  connectTimeout : UInt64
  /-- Time limit for the wait for a place in the pool. -/
  connectionRequestTimeout : UInt64
  /-- Time limit for reading, for each request. -/
  requestSocketTimeout : UInt64
  /-- The number of attempts a request may take, the first one included. -/
  maxExecutionCount : UInt32
  deriving DecidableEq, Repr

namespace Configuration

/-- The settings that hold when nothing is said. -/
def standard : Configuration where
  maxPerRoute := 25
  maxTotal := 50
  socketTimeout := 50000
  connectTimeout := 5000
  connectionRequestTimeout := 5000
  requestSocketTimeout := 50000
  maxExecutionCount := 100

/-- A usable configuration has positive caps, the larger one over all routes, and allows at least one
attempt. The first requirement that fails is reported. -/
def validate (c : Configuration) : Except ConfigError Unit :=
  if c.maxPerRoute = 0 then .error (.zero "max_per_route")
  else if c.maxTotal = 0 then .error (.zero "max_total")
  else if c.maxTotal < c.maxPerRoute then
    .error (.totalBelowPerRoute c.maxTotal.toNat c.maxPerRoute.toNat)
  else if c.maxExecutionCount = 0 then .error (.zero "max_execution_count")
  else .ok ()

end Configuration

/-- A time limit from its setting: zero means none. -/
def limit? (ms : Nat) : Option Nat := if ms = 0 then none else some ms

/-- What is set on every connection the pool opens. -/
structure SocketSettings where
  /-- Limit for reading where a request brings none, and for securing a connection. -/
  readTimeout : Option Nat
  /-- Whether idle connections are probed. -/
  keepAlive : Bool
  /-- Whether small writes are sent at once. -/
  noDelay : Bool
  deriving DecidableEq, Repr

/-- No limit, no probing, no delay. -/
def SocketSettings.standard : SocketSettings := ⟨none, false, true⟩

/-- What holds for each request of a manager's clients. -/
structure RequestSettings where
  /-- Whether a request with a body announces it by an `Expect` header. -/
  expectContinue : Bool
  /-- Limit for connecting to one address. -/
  connectTimeout : Option Nat
  /-- Limit for the wait for a place in the pool. -/
  leaseTimeout : Option Nat
  /-- Limit for each wait for the response head or the next part of the body. -/
  readTimeout : Option Nat
  deriving DecidableEq, Repr

/-- The caps of a pool and the settings of its connections. -/
structure PoolSettings where
  maxPerRoute : Nat
  maxTotal : Nat
  socket : SocketSettings
  deriving DecidableEq, Repr

namespace Configuration

/-- The settings of requests under a configuration. -/
def requestSettings (c : Configuration) : RequestSettings where
  expectContinue := true
  connectTimeout := limit? c.connectTimeout.toNat
  leaseTimeout := limit? c.connectionRequestTimeout.toNat
  readTimeout := limit? c.requestSocketTimeout.toNat

/-- The settings of the pool under a configuration. -/
def poolSettings (c : Configuration) : PoolSettings where
  maxPerRoute := c.maxPerRoute.toNat
  maxTotal := c.maxTotal.toNat
  socket := { SocketSettings.standard with readTimeout := limit? c.socketTimeout.toNat }

end Configuration
end PooledHttp
