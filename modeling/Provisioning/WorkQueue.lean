import Provisioning.Text.Summary

/-! # The work queue

A first-in first-out queue with one worker.  Producers put jobs into a channel, of bounded
capacity or not, and the worker runs them one at a time in the order of acceptance.  A job
may itself schedule further jobs, flush the queue or terminate it.  The machine advances in
small steps, so that steps of producers and of the worker may alternate in any order; a step
that has to wait for room leaves the queue as it is.  What the queue accepted, ran and
refused can be read off its history.
-/
namespace Provisioning

/-- One action of a job. -/
inductive JobAction where
  /-- Puts a job, given by its number and its actions, into the queue that runs this one. -/
  | schedule (id : Int) (actions : List JobAction)
  | flush
  | terminate
  /-- Breaks the job off. -/
  | crash

/-- A job: a number to tell it by, and what it does. -/
structure Job where
  id : Int
  actions : List JobAction

/-- What a channel transports. -/
inductive QueueItem where
  | run (job : Job)
  /-- Lets whoever sent it know that everything in front has run. -/
  | barrier
  /-- Stops the worker. -/
  | stop

/-- What the worker is doing. -/
inductive WorkerState where
  | unstarted
  | idle
  /-- Running a job, with some of its actions still to come. -/
  | working (job : Job) (rest : List JobAction)
  /-- Running a job that terminates the queue, until the stop has found room. -/
  | stopping (job : Job) (rest : List JobAction)
  | stopped
  /-- There was no thread to be had for the worker, and there will be none. -/
  | failed

/-- What happened on a queue. -/
inductive QueueEvent where
  /-- A producer scheduled a job; whether it was accepted. -/
  | produced (job : Job) (accepted : Bool)
  /-- The worker took a job. -/
  | run (job : Job)
  /-- A job came to its end. -/
  | done (job : Job)
  /-- A job scheduled another one; whether that was accepted. -/
  | scheduled (job : Job) (accepted : Bool)
  /-- A job flushed the queue, which from within does nothing. -/
  | flushed
  /-- A job terminated the queue; whether the queue still accepts. -/
  | terminated (accepting : Bool)

/-- A queue. -/
structure WorkQueue where
  name : String
  /-- The most items that may wait in the channel. -/
  capacity : Option Nat
  channel : List QueueItem := []
  accepting : Bool := true
  /-- Whether a terminating caller has yet to send the stop. -/
  owesStop : Bool := false
  worker : WorkerState := .unstarted
  history : List QueueEvent := []

namespace WorkQueue

variable (q : WorkQueue)

/-- Whether the worker waits for an item. -/
def isIdle : Bool :=
  match q.worker with
  | .idle => true
  | _ => false

/-- Whether the worker was ever started. -/
def isStarted : Bool :=
  match q.worker with
  | .unstarted | .failed => false
  | _ => true

/-- Whether the worker was started and has not stopped. -/
def isRunning : Bool :=
  match q.worker with
  | .unstarted | .stopped | .failed => false
  | _ => true

/-- Whether a start has failed, so that nobody will ever take anything. -/
def hasFailed : Bool :=
  match q.worker with
  | .failed => true
  | _ => false

/-- Whether the channel takes another item.  One without capacity hands an item over to a
worker that waits for it. -/
def hasRoom : Bool :=
  match q.capacity with
  | none => true
  | some 0 => q.isIdle && q.channel.isEmpty
  | some n => decide (q.channel.length < n)

/-- Puts an item into the channel. -/
def push (item : QueueItem) : WorkQueue := { q with channel := q.channel ++ [item] }

/-- Adds to the history. -/
def record (e : QueueEvent) : WorkQueue := { q with history := q.history ++ [e] }

/-! ### Steps of producers -/

/-- A producer schedules a job.  The answer is whether it was accepted; without an answer the
producer waits for room. -/
def produce (job : Job) : Option Bool × WorkQueue :=
  if !q.accepting || q.hasFailed then (some false, q.record (.produced job false))
  else if q.hasRoom then (some true, (q.push (.run job)).record (.produced job true))
  else (none, q)

/-- Starts the worker; it is started once.  That the queue gets the handle of the worker's thread is
a step of its own (`TrafficMove.enroll`). -/
def start : WorkQueue :=
  match q.worker with
  | .unstarted => { q with worker := .idle }
  | _ => q

/-- Whether a thread can have the name of the queue. -/
def hasThreadName : Bool := !q.name.toList.contains '\x00'

/-- A start for which there is no thread.  The channel goes with it, and what is in it; no later
start makes up for that. -/
def failStart : WorkQueue :=
  match q.worker with
  | .unstarted => { q with worker := .failed, channel := [] }
  | _ => q

/-- A caller ends the acceptance of jobs and owes the stop, unless somebody did so before. -/
def close : WorkQueue :=
  if q.accepting then { q with accepting := false, owesStop := true } else q

/-- The caller who ended the acceptance sends the stop, once there is room. -/
def sendStop : WorkQueue :=
  match q.worker with
  | .stopping _ _ => q
  | .failed => { q with owesStop := false }
  | _ => if q.owesStop && q.hasRoom then { q.push .stop with owesStop := false } else q

/-- A caller sends a barrier to a running worker, once there is room. -/
def sendBarrier : WorkQueue :=
  if q.isRunning && q.accepting && q.hasRoom then q.push .barrier else q

/-! ### Steps of the worker -/

/-- The worker runs the next action of its job.  A job that schedules another one is answered at
once, which is what a queue does that knows the thread of its worker (`Traffic.begin`). -/
def act (job : Job) (rest : List JobAction) : JobAction → WorkQueue
  | .schedule id actions =>
    if q.accepting && q.hasRoom then
      { (q.push (.run ⟨id, actions⟩)).record (.scheduled ⟨id, actions⟩ true) with
        worker := .working job rest }
    else { q.record (.scheduled ⟨id, actions⟩ false) with worker := .working job rest }
  | .flush => { q.record .flushed with worker := .working job rest }
  | .terminate =>
    if q.accepting then { q.close with worker := .stopping job rest }
    else { q.record (.terminated false) with worker := .working job rest }
  | .crash => { q with worker := .idle }

/-- One step of the worker.  A worker that waits for an item or for room does not move. -/
def work : WorkQueue :=
  match q.worker with
  | .unstarted => q
  | .stopped => q
  | .failed => q
  | .idle =>
    match q.channel with
    | [] => q
    | .run job :: rest =>
      { q.record (.run job) with channel := rest, worker := .working job job.actions }
    | .barrier :: rest => { q with channel := rest }
    | .stop :: rest => { q with channel := rest, worker := .stopped }
  | .working job [] => { q.record (.done job) with worker := .idle }
  | .working job (a :: rest) => q.act job rest a
  | .stopping job rest =>
    if q.hasRoom then
      { (q.push .stop).record (.terminated q.accepting) with
        owesStop := false, worker := .working job rest }
    else q

/-- Whether the worker, in the middle of a job, waits for room in its own channel. -/
def isStuck : Bool :=
  match q.worker with
  | .stopping _ _ => !q.hasRoom
  | _ => false

/-! ### Running until nothing is left to do -/

mutual
/-- A bound on the steps that an action takes, those of the jobs it schedules included. -/
def weigh : JobAction → Nat
  | .schedule _ actions => weighAll actions + 3
  | .flush => 1
  | .terminate => 3
  | .crash => 1

/-- A bound on the steps of a list of actions. -/
def weighAll : List JobAction → Nat
  | [] => 0
  | a :: rest => weigh a + weighAll rest
end

/-- A bound on the steps that an item takes. -/
def weighItem : QueueItem → Nat
  | .run job => weighAll job.actions + 2
  | .barrier => 1
  | .stop => 1

/-- A bound on the steps that a line of items takes. -/
def weighItems : List QueueItem → Nat
  | [] => 0
  | item :: rest => weighItem item + weighItems rest

/-- A bound on the steps that the worker can take by itself. -/
def weight : Nat :=
  (match q.worker with
    | .working _ rest => weighAll rest + 1
    | .stopping _ rest => weighAll rest + 3
    | _ => 0) + weighItems q.channel

/-- A number of steps of the worker. -/
def workFor : Nat → WorkQueue → WorkQueue
  | 0, q => q
  | n + 1, q => workFor n q.work

/-- Lets the worker go on until it waits. -/
def settle : WorkQueue := workFor q.weight q

/-! ### What can be observed -/

/-- The number of items that wait. -/
def pending : Nat := q.channel.length

/-- A queue in one line. -/
def describe (name : String) (pending : Nat) (accepting : Bool) : String :=
  Text.summary "WorkQueue"
    [("name", Text.quoted name), ("pending", toString pending),
      ("accepting", Text.shownBool accepting)]

/-- The queue in one line. -/
def summary : String := describe q.name q.pending q.accepting

/-- The job that an event shows accepted. -/
def acceptedBy? : QueueEvent → Option Job
  | .produced job true => some job
  | .scheduled job true => some job
  | _ => none

/-- The accepted jobs, in the order of acceptance. -/
def accepted : List Job := q.history.filterMap acceptedBy?

/-- The job that an event shows taken. -/
def takenBy? : QueueEvent → Option Job
  | .run job => some job
  | _ => none

/-- The jobs that the worker took, in order. -/
def taken : List Job := q.history.filterMap takenBy?

/-- The job that waits in an item. -/
def waitingIn? : QueueItem → Option Job
  | .run job => some job
  | _ => none

/-- The jobs that wait, in order. -/
def waiting : List Job := q.channel.filterMap waitingIn?

end WorkQueue
end Provisioning
