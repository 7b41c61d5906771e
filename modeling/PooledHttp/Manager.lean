import PooledHttp.Client.Service
import PooledHttp.Config.Codec

/-!
# Connection managers

A manager is made from a usable configuration. It owns the one pool that all its clients share, and
all of them follow the same retry policy, keep-alive policy and request settings.
-/

set_option autoImplicit false

namespace PooledHttp

/-- A manager as it is made: its configuration and what follows from it. -/
structure Manager where
  configuration : Configuration
  pool : PoolSettings
  clients : Client.Settings

namespace Manager

/-- Make a manager. An unusable configuration is refused. -/
def new (c : Configuration) : Except ClientError Manager :=
  match c.validate with
  | .error e => .error (.config e)
  | .ok () => .ok
    { configuration := c
      pool := c.poolSettings
      clients :=
        { request := c.requestSettings
          retry := ⟨c.maxExecutionCount.toNat⟩
          keepAlive := .standard } }

/-- The pool and its clients at the start. -/
def service (m : Manager) : Client.Service := .init m.clients m.pool

/-- The figures of the pool at the start. -/
def stats (m : Manager) : Pool.Stats := m.service.pool.stats

end Manager
end PooledHttp
