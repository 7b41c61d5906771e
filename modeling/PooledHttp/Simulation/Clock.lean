import PooledHttp.Simulation.Task

/-!
# Time in a simulation

Time stands still while any task can go on. When none can, the clock moves to the next moment at
which something is due: the deadline of a task or an appointment of a server. At one and the same
moment deadlines come first, and the tasks they concern go on before anything that servers do at that
moment shows.
-/

set_option autoImplicit false

namespace PooledHttp.Simulation

open Pool Client

/-- More steps than the tasks of any simulation take without time passing. -/
def patience : Nat := 10000000

namespace World

/-- One step of a task. -/
def stepTask (w : World) (t : TaskId) : Bool × World :=
  match w.tasks[t]? with
  | none => (false, w)
  | some task =>
    if !task.running then (false, w)
    else match task.job with
      | .lease l limit opening => w.stepLeaseTask t task l limit opening
      | .call i opening body => w.stepCall t i opening body
      | .send owner l request use progress => w.stepSend t task owner l request use progress
      | .read body collected => w.stepRead t body collected

/-- Run a task until it has to wait. -/
def runTask (t : TaskId) : Nat → World → World
  | 0, w => w
  | fuel + 1, w => match w.stepTask t with
    | (true, w) => runTask t fuel w
    | (false, w) => w

/-- Run tasks until none can go on. -/
def runReady : Nat → World → World
  | 0, w => w
  | fuel + 1, w => match w.ready with
    | [] => w
    | t :: later => runReady fuel (runTask t patience { w with ready := later })

/-- What a server does. A request that has come before the server takes it for a failed handshake
makes it close the channel at once. -/
def act (w : World) (a : Appointment) : World :=
  w.setChannel a.channel fun c => match a.action with
    | .establish => if c.serverOpen && !c.isDead then { c with established := true } else c
    | .answerHandshake accepted =>
      if c.serverOpen && !c.isDead then { c with handshake := some accepted } else c
    | .awaitHandshake => if c.unread then c.closeByServer else { c with expectsHandshake := true }
    | .send signals => c.deliver signals
    | .retire => { c with serving := false }
    | .close => c.closeByServer

/-- Everything that servers do by now. -/
def actDue (w : World) : World :=
  let (due, later) := w.agenda.partition fun a => a.time ≤ w.now
  (due.foldl act { w with agenda := later }).stir

/-- Run until nothing can happen without time passing. -/
def settle : Nat → World → World
  | 0, w => w
  | fuel + 1, w =>
    let w := runReady patience w
    if w.agenda.any fun a => a.time ≤ w.now then settle fuel w.actDue else w

/-- The time at which the wait of a task is over. -/
def deadline? (w : World) (task : Task) : Option Millis :=
  let ofLease (l : LeaseId) (limit : Option Millis) (opening : Opening) : Option Millis :=
    match w.service.pool.leases[l]? with
    | some lease => match lease.phase with
      | .parked false => lease.deadline
      | .connecting => w.openingDeadline? limit opening
      | _ => none
    | none => none
  if !task.running then none
  else match task.job with
    | .lease l limit opening => ofLease l limit opening
    | .call i opening _ => match w.service.calls[i]? with
      | some call => match call.stage with
        | .leasing a => ofLease a.lease w.service.settings.request.connectTimeout opening
        | .exchanging _ reading => reading.deadline?
        | _ => none
      | none => none
    | .send _ _ _ _ _ | .read _ _ => none

/-- The next moment at which something is due. -/
def nextMoment? (w : World) : Option Millis :=
  ((w.tasks.filterMap w.deadline?) ++ w.agenda.map (·.time)).min?

/-- Move the clock. -/
def moveTo (w : World) (time : Millis) : World := w.inPool (.tick (time - w.now))

/-- Let the tasks go on whose wait is over. -/
def ring (w : World) : World :=
  w.awakenWhere fun _ task => (w.deadline? task).any (· ≤ w.now)

/-- Let time pass up to `target`. -/
def advance (target : Millis) : Nat → World → World
  | 0, w => w
  | fuel + 1, w => match w.nextMoment? with
    | some time =>
      if time ≤ target then advance target fuel (settle patience (w.moveTo time).ring)
      else w.moveTo target
    | none => w.moveTo target

end World
end PooledHttp.Simulation
