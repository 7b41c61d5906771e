import PooledHttp.Config.Basic
import PooledHttp.Config.Value

/-!
# Reading and writing configurations

A configuration is written as an object with one field per setting. It is read from an object, where
unknown fields are ignored and a missing setting has its standard value, or from a list with the
settings in the order of `Configuration.keys`, where missing ones at the end have theirs. A setting
that is present has to be a natural number of its width, and no setting may be given twice.
-/

set_option autoImplicit false

namespace PooledHttp.Configuration

/-- The names of the settings, in order. -/
def keys : List String :=
  ["max_per_route", "max_total", "socket_timeout_ms", "connect_timeout_ms",
    "connection_request_timeout_ms", "request_socket_timeout_ms", "max_execution_count"]

/-- Write a configuration. -/
def encode (c : Configuration) : Value :=
  .object <| keys.zip
    ([c.maxPerRoute.toNat, c.maxTotal.toNat, c.socketTimeout.toNat, c.connectTimeout.toNat,
      c.connectionRequestTimeout.toNat, c.requestSocketTimeout.toNat,
      c.maxExecutionCount.toNat].map Value.ofNat)

/-- A setting of 64 bits. -/
def wide? (v : Value) : Option UInt64 := (v.natural? (UInt64.size - 1)).map UInt64.ofNat

/-- A setting of 32 bits. -/
def narrow? (v : Value) : Option UInt32 := (v.natural? (UInt32.size - 1)).map UInt32.ofNat

/-- What the fields hold under a name. -/
def valuesOf (fields : List (String × Value)) (key : String) : List Value :=
  (fields.filter (·.1 == key)).map Prod.snd

/-- The setting under a name: the standard value when it is absent. -/
def field? {α : Type} (read? : Value → Option α) (fields : List (String × Value)) (key : String)
    (standard : α) : Option α :=
  match valuesOf fields key with
  | [] => some standard
  | [v] => read? v
  | _ => none

/-- The next setting of a list, and the items behind it: the standard value at the end of the list. -/
def item? {α : Type} (read? : Value → Option α) (items : List Value) (standard : α) :
    Option (α × List Value) :=
  match items with
  | [] => some (standard, [])
  | v :: later => (read? v).map (·, later)

/-- Read the settings from named fields. -/
def ofFields? (fields : List (String × Value)) : Option Configuration := do
  let maxPerRoute ← field? wide? fields "max_per_route" standard.maxPerRoute
  let maxTotal ← field? wide? fields "max_total" standard.maxTotal
  let socketTimeout ← field? wide? fields "socket_timeout_ms" standard.socketTimeout
  let connectTimeout ← field? wide? fields "connect_timeout_ms" standard.connectTimeout
  let connectionRequestTimeout ←
    field? wide? fields "connection_request_timeout_ms" standard.connectionRequestTimeout
  let requestSocketTimeout ←
    field? wide? fields "request_socket_timeout_ms" standard.requestSocketTimeout
  let maxExecutionCount ← field? narrow? fields "max_execution_count" standard.maxExecutionCount
  return { maxPerRoute, maxTotal, socketTimeout, connectTimeout, connectionRequestTimeout,
           requestSocketTimeout, maxExecutionCount }

/-- Read the settings one after the other. Nothing may follow them. -/
def ofItems? (items : List Value) : Option Configuration := do
  let (maxPerRoute, items) ← item? wide? items standard.maxPerRoute
  let (maxTotal, items) ← item? wide? items standard.maxTotal
  let (socketTimeout, items) ← item? wide? items standard.socketTimeout
  let (connectTimeout, items) ← item? wide? items standard.connectTimeout
  let (connectionRequestTimeout, items) ← item? wide? items standard.connectionRequestTimeout
  let (requestSocketTimeout, items) ← item? wide? items standard.requestSocketTimeout
  let (maxExecutionCount, items) ← item? narrow? items standard.maxExecutionCount
  if items.isEmpty then
    return { maxPerRoute, maxTotal, socketTimeout, connectTimeout, connectionRequestTimeout,
             requestSocketTimeout, maxExecutionCount }
  else none

/-- Read a configuration. -/
def decode? : Value → Option Configuration
  | .object fields => ofFields? fields
  | .list items => ofItems? items
  | _ => none

end PooledHttp.Configuration
