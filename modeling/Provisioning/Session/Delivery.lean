import Provisioning.Session.Lookup

/-! # Deliveries

What the two workers do.  A task looks at its record and at the directory as they stand when
it runs: generations that were served are skipped, visibility is asked for every consumer,
an unowned record is bound to the first consumer it is served to, and a failing callback
never keeps the others from being called.
-/
namespace Provisioning
namespace Session

variable (s : Session)

/-! ### Callbacks -/

/-- Writes down a call, unless the consumer is of the wrong kind and is not called. -/
def noteCall (t : Target) (c : Consumer) (delivered : Option Properties)
    (occasion : Option Occasion) : Session :=
  match t.call? c delivered with
  | some message => { s with calls := s.calls ++ [⟨c, message, occasion⟩] }
  | none => s

/-- Counts the result of a callback: a success in a way of its own, a failure as such. -/
def countResult (success : Tally → Tally) (result : Except CallbackError Unit) : Session :=
  match result with
  | .ok () => s.count success
  | .error _ => s.count fun t => { t with failed := t.failed + 1 }

/-- Tells a consumer that it has no properties of a record. -/
def revoke (h : Handle) (t : Target) (c : Consumer) : Session :=
  (s.noteCall t c none (some ⟨h, s.record h, none⟩)).countResult
    (fun t => { t with removed := t.removed + 1 }) (t.provide s.directory c none)

/-- Hands properties of a record to a consumer, as the plugins leave them, and notes that it
took the generation. -/
def serve (h : Handle) (t : Target) (c : Consumer) (generation : Nat) (p : Properties) :
    Session :=
  let delivered := s.plugins.apply t.identity c.service (some p)
  ((s.noteCall t c delivered (some ⟨h, s.record h, some (p, generation)⟩)).countResult
    (fun t => { t with delivered := t.delivered + 1 })
    (t.provide s.directory c delivered)).change h fun r => r.note c.service.id generation

/-- Tells a consumer of one pid that there are no properties yet. -/
def greet (pid : String) (c : Consumer) (occasion : Option Occasion) : Session :=
  (s.noteCall (.single pid) c none occasion).countResult id
    ((Target.single pid).provide s.directory c none)

/-- Counts a delivery that had been made already. -/
def skip : Session := s.count fun t => { t with stale := t.stale + 1 }

/-- Counts a delivery to a consumer that may not see the record. -/
def deny : Session := s.count fun t => { t with denied := t.denied + 1 }

/-! ### Tasks -/

/-- Binds a record to the location of the first of its consumers. -/
def bindFirst (h : Handle) (targets : List Consumer) : Session :=
  match targets with
  | [] => s
  | c :: _ => s.bind h c.service.location

/-- Serves one generation to one consumer, unless it has that generation or may not see what
the owner owns. -/
def offer (h : Handle) (t : Target) (owner : Option String) (generation : Nat)
    (p : Properties) (c : Consumer) : Session :=
  if (s.record h).deliveredTo c.service.id generation then s.skip
  else if s.permits c.service.location owner then s.serve h t c generation p
  else s.deny

/-- Serves one generation to every consumer of a record. -/
def deliver (h : Handle) (generation : Nat) (p : Properties) : Session :=
  let r := s.record h
  if r.deleted then s
  else if r.isStale generation then s.skip
  else
    let targets := r.target.resolve s.directory
    let s := s.bindFirst h targets
    (targets.foldl
      (fun s' c => s'.offer h r.target (s.record h).owner generation p c) s
      ).change h fun r => r.advance generation

/-- Tells a consumer that a record is gone, if it could see the record. -/
def retractFrom (h : Handle) (t : Target) (owner : Option String) (c : Consumer) : Session :=
  if s.permits c.service.location owner then s.revoke h t c else s

/-- Removes a pid from the roster of its factory and stores the roster; failures are passed
over. -/
def expel (pid factoryPid : String) : Session :=
  match s.factory factoryPid with
  | (.error _, s) => s
  | (.ok roster, s) =>
    if roster.contains pid then
      let roster := roster.remove pid
      let s := s.keepRoster roster
      match roster.store s.storage with
      | .ok storage => { s with storage }
      | .error _ => s
    else s

/-- Tells every consumer that could see a record that it is gone, and removes it from its
factory. -/
def retract (h : Handle) (owner : Option String) : Session :=
  let r := s.record h
  let s := (r.target.resolve s.directory).foldl
    (fun s' c => s'.retractFrom h r.target owner c) s
  match r.factoryPid with
  | some f => s.expel r.pid f
  | none => s

/-- After a change of the owner: a consumer that no longer sees the record loses it, one that
sees it now for the first time is served. -/
def reconsider (h : Handle) (t : Target) (former owner : Option String) (c : Consumer) :
    Session :=
  let saw := s.permits c.service.location former
  let sees := s.permits c.service.location owner
  if saw && !sees then (s.revoke h t c).change h fun r => r.forget c.service.id
  else if !saw && sees then
    match (s.record h).properties with
    | some p => s.serve h t c (s.record h).counter p
    | none => s
  else s

/-- Serves and revokes a record after its owner changed. -/
def relocate (h : Handle) (former : Option String) : Session :=
  let r := s.record h
  if r.deleted then s
  else
    let targets := r.target.resolve s.directory
    let s := s.bindFirst h targets
    targets.foldl (fun s' c => s'.reconsider h r.target former (s.record h).owner c) s

/-- The first delivery of a snapshot to a consumer that has just been attached: unless the
consumer has it already or may not see it, the record is bound if it has no owner, and then
served. -/
def introduce (h : Handle) (t : Target) (c : Consumer) (generation : Nat) (p : Properties) :
    Session :=
  let r := s.record h
  if r.deleted then s
  else if r.deliveredTo c.service.id generation then s.skip
  else if s.permits c.service.location r.owner then
    (s.bind h c.service.location).serve h t c generation p
  else s.deny

/-- The first word to a consumer about a record that has no properties yet. -/
def introduceEmpty (h : Handle) (pid : String) (c : Consumer) : Session :=
  let r := s.record h
  if r.deleted then s
  else if s.permits c.service.location r.owner then
    let s := s.bind h c.service.location
    s.greet pid c (some ⟨h, s.record h, none⟩)
  else s.deny

/-- The first delivery to a consumer of one pid. -/
def attach (c : Consumer) (pid : String) (snapshot : Option Snapshot) : Session :=
  if !s.directory.isLive c.service then s
  else
    match snapshot with
    | none => s.greet pid c none
    | some ⟨h, some p, generation⟩ => s.introduce h (.single pid) c generation p
    | some ⟨h, none, _⟩ => s.introduceEmpty h pid c

/-- The first delivery of one member to a consumer of its factory. -/
def attachMember (c : Consumer) (m : Snapshot) : Session :=
  match m.properties with
  | some p => s.introduce m.record (s.record m.record).target c m.generation p
  | none => s

/-- The first delivery to a consumer of a factory. -/
def attachFactory (c : Consumer) (members : List Snapshot) : Session :=
  if !s.directory.isLive c.service then s
  else members.foldl (fun s' m => s'.attachMember c m) s

/-- Runs a task. -/
def perform : Task → Session
  | .deliver h generation p => s.deliver h generation p
  | .retract h owner => s.retract h owner
  | .relocate h former => s.relocate h former
  | .attach c pid snapshot => s.attach c pid snapshot
  | .attachFactory c _ members => s.attachFactory c members

/-! ### Notices -/

/-- Tells a listener of a change, if its provider is active. -/
def tell (n : Notice) (l : Service) : Session :=
  if s.directory.stateOf l = .active then
    let s' : Session := { s with notifications := s.notifications ++ [⟨l, n⟩] }
    s'.countResult (fun t => { t with noticed := t.noticed + 1 })
      (s.directory.replies l (.noticed n)).result
  else s

/-! ### Workers -/

/-- The update worker runs the task that waits longest. -/
def runUpdate : Session :=
  match s.updates.waiting with
  | [] => s
  | t :: _ =>
    let s' : Session := { s with updates := s.updates.pop }
    s'.perform t

/-- The notice worker sends the notice that waits longest to those who are to be told. -/
def runNotice : Session :=
  match s.notices.waiting with
  | [] => s
  | (n, listeners) :: _ =>
    let s' : Session := { s with notices := s.notices.pop }
    listeners.foldl (fun s l => s.tell n l) s'

/-- A number of steps of the update worker. -/
def runUpdates : Nat → Session → Session
  | 0, s => s
  | n + 1, s => runUpdates n s.runUpdate

/-- A number of steps of the notice worker. -/
def runNotices : Nat → Session → Session
  | 0, s => s
  | n + 1, s => runNotices n s.runNotice

/-- Lets the update worker run every waiting task.  Tasks queue no tasks, so that many steps
are enough. -/
def drainUpdates : Session := runUpdates s.updates.waiting.length s

/-- Lets the notice worker send every waiting notice. -/
def drainNotices : Session := runNotices s.notices.waiting.length s

/-- Lets both workers run until nothing waits. -/
def drain : Session := s.drainUpdates.drainNotices

end Session
end Provisioning
