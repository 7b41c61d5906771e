import PooledHttp.Error.Client

/-!
# Repeating failed attempts

`RetryPolicy.allows` decides after a failed attempt whether the request is tried again.
`RetryPolicy.verdict` applies it to the outcome of an attempt: only transport failures can lead to
another attempt, and everything else is the request's result.
-/

set_option autoImplicit false

namespace PooledHttp

/-- How many attempts a request may take, the first one included. -/
structure RetryPolicy where
  maxAttempts : Nat
  deriving DecidableEq, Repr

namespace RetryPolicy

/-- Whether to try again after attempt number `attempt` failed. At the last allowed attempt never;
otherwise always after a failure of the network, and after any other only when the request may safely
be repeated. -/
def allows (policy : RetryPolicy) (kind : TransportKind) (attempt : Nat) (idempotent : Bool) :
    Bool :=
  if attempt ≥ policy.maxAttempts then false
  else match kind with
    | .noResponse | .unknownHost | .connectTimeout | .socketTimeout | .interrupted
    | .secureChannel => true
    | .io => idempotent

/-- The result of the request after attempt number `attempt` came out as `outcome`, or `none` when
there is to be another attempt. -/
def verdict {α : Type} (policy : RetryPolicy) (idempotent : Bool) (attempt : Nat)
    (outcome : Except ClientError α) : Option (Except ClientError α) :=
  match outcome with
  | .error (.transport e) =>
    if policy.allows e.kind attempt idempotent then none else some outcome
  | _ => some outcome

/-- Run attempts until one decides the request. `outcomes n` is what attempt number `n` comes to.
The answer is the number of the deciding attempt and its outcome. -/
def run {α : Type} (policy : RetryPolicy) (idempotent : Bool)
    (outcomes : Nat → Except ClientError α) (attempt : Nat) : Nat × Except ClientError α :=
  match policy.verdict idempotent attempt (outcomes attempt) with
  | some result => (attempt, result)
  | none =>
    if attempt < policy.maxAttempts then run policy idempotent outcomes (attempt + 1)
    else (attempt, outcomes attempt)
termination_by policy.maxAttempts - attempt

end RetryPolicy
end PooledHttp
