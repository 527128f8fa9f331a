import Provisioning.WorkQueue

/-! # Traffic around a queue

A call to a queue takes several steps, and others may come in between: a producer is let in first
and waits for room afterwards, a start gets a thread for the worker, which runs before the queue has
the handle of it, and a job that flushes or terminates its own queue may have to wait as well.
`Traffic` is a queue with everybody who is in the middle of such a call.

The queue knows its worker by the handle.  A job that schedules another one is answered at once if
it is known, whether there is room or not (`WorkQueue.act`); if it is not, it waits for room, in the
manner of producers (`Traffic.begin`).
-/
namespace Provisioning

/-- Where a job is in a call to its own queue that does not end at once. -/
inductive PendingCall where
  /-- It schedules a job from a thread that is not known as the worker, and waits for room. -/
  | schedule (id : Int) (actions : List JobAction)
  /-- A flush has seen that the thread is not known as the worker, and looks for a worker. -/
  | flush
  /-- It has found one, and sends it a barrier. -/
  | bar
  /-- It waits until the worker comes to the barrier. -/
  | await
  /-- A termination waits until no producer is inside. -/
  | terminate

/-- Whether the queue has the handle of its worker's thread. -/
inductive Enrolment where
  | due
  | current
  /-- Whoever terminated the queue has taken the handle away. -/
  | over

/-- A queue with those who are in the middle of a call to it. -/
structure Traffic where
  queue : WorkQueue
  enrolment : Enrolment := .due
  /-- The jobs of producers who were let in and have yet to send them.  Nobody closes the queue
  meanwhile. -/
  inside : List Job := []
  /-- How many callers have found a worker to flush, and have yet to send their barrier. -/
  flushing : Nat := 0
  /-- The call in which the running job is, and its actions that come after. -/
  pending : Option (PendingCall × List JobAction) := none

/-- One step of somebody who has to do with a queue. -/
inductive TrafficMove where
  /-- The first half of a start: the thread of the worker begins to run. -/
  | spawn
  /-- A start for which there is no thread: none can have the name (`WorkQueue.hasThreadName`), or
  the system gives none. -/
  | fail
  /-- The second half: the queue gets the handle of the thread. -/
  | enroll
  /-- A producer who schedules a job is let in or refused. -/
  | enter (job : Job)
  /-- One of those who are inside sends, once there is room. -/
  | send (n : Nat)
  /-- A caller who terminates the queue closes it, once nobody is inside. -/
  | close
  | sendStop
  /-- Whoever terminated the queue takes the handle away. -/
  | dismiss
  /-- A caller who flushes the queue looks for a worker. -/
  | flush
  | sendBarrier
  | work
  /-- The running job does something that its list does not tell. -/
  | improvise (a : JobAction)

namespace Traffic

/-- A queue that nobody has called yet. -/
def opened (name : String) (capacity : Option Nat) : Traffic :=
  { queue := { name := name, capacity := capacity } }

/-- Whether a call from the worker's thread is known as such. -/
def isKnown (s : Traffic) : Bool :=
  match s.enrolment with
  | .current => true
  | _ => false

/-! ### Steps of the worker -/

/-- An action of the running job comes to its end. -/
def act (s : Traffic) (job : Job) (rest : List JobAction) (a : JobAction) : Traffic :=
  { s with queue := s.queue.act job rest a, pending := none }

/-- The running job begins an action. -/
def begin (s : Traffic) (job : Job) (rest : List JobAction) : JobAction → Traffic
  | .schedule id actions =>
    if s.isKnown || !s.queue.accepting then s.act job rest (.schedule id actions)
    else { s with pending := some (.schedule id actions, rest) }
  | .flush =>
    if s.isKnown then s.act job rest .flush else { s with pending := some (.flush, rest) }
  | .terminate => { s with pending := some (.terminate, rest) }
  | .crash => s.act job rest .crash

/-- The running job goes on with a call. -/
def resume (s : Traffic) (job : Job) (rest : List JobAction) : PendingCall → Traffic
  | .schedule id actions =>
    if s.queue.hasRoom then s.act job rest (.schedule id actions) else s
  | .flush =>
    if s.isKnown then { s with pending := some (.bar, rest) } else s.act job rest .flush
  | .bar =>
    if s.queue.hasRoom then
      { s with queue := s.queue.push .barrier, pending := some (.await, rest) }
    else s
  | .await => s
  | .terminate => if s.inside.isEmpty then s.act job rest .terminate else s

def work (s : Traffic) : Traffic :=
  match s.queue.worker, s.pending with
  | .working job _, some (call, rest) => s.resume job rest call
  | .working job (a :: rest), none => s.begin job rest a
  | _, none => { s with queue := s.queue.work }
  | _, some _ => s

def improvise (s : Traffic) (a : JobAction) : Traffic :=
  match s.queue.worker, s.pending with
  | .working job rest, none => s.begin job rest a
  | _, _ => s

/-! ### Steps of others -/

def send (s : Traffic) (n : Nat) : Traffic :=
  match s.inside[n]? with
  | none => s
  | some job =>
    match s.queue.produce job with
    | (none, _) => s
    | (some _, q) => { s with queue := q, inside := s.inside.eraseIdx n }

/-- Whether nobody keeps the queue from being closed: no producer is inside, and no job that
schedules another one in the manner of producers. -/
def isClear (s : Traffic) : Bool :=
  match s.pending with
  | some (.schedule _ _, _) => false
  | _ => s.inside.isEmpty

/-- The queue with its callers after a step. -/
def move (s : Traffic) : TrafficMove → Traffic
  | .spawn => { s with queue := s.queue.start }
  | .fail => { s with queue := s.queue.failStart }
  | .enroll =>
    match s.enrolment with
    | .due => if s.queue.isStarted then { s with enrolment := .current } else s
    | _ => s
  | .enter job =>
    if s.queue.accepting then { s with inside := s.inside ++ [job] }
    else { s with queue := s.queue.record (.produced job false) }
  | .send n => s.send n
  | .close => if s.isClear then { s with queue := s.queue.close } else s
  | .sendStop => { s with queue := s.queue.sendStop }
  | .dismiss =>
    if s.isKnown && !s.queue.accepting then { s with enrolment := .over } else s
  | .flush => if s.isKnown then { s with flushing := s.flushing + 1 } else s
  | .sendBarrier =>
    if s.flushing ≠ 0 ∧ s.queue.hasRoom then
      { s with queue := s.queue.push .barrier, flushing := s.flushing - 1 }
    else s
  | .work => s.work
  | .improvise a => s.improvise a

/-- The queue with its callers after some steps. -/
def run (s : Traffic) (moves : List TrafficMove) : Traffic := moves.foldl move s

end Traffic
end Provisioning
