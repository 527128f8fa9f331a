import Mathlib.Tactic.SplitIfs
import Provisioning.Traffic

/-! # Steps of a queue

Many have to do with a queue, and each of them takes many steps, but of what these do to the queue
itself there are few kinds.  `WorkQueue.Step` lists them, and `step_move` says that there are no
others; whatever a queue keeps is proved of a `Step` and followed along a run.

Two things that no step changes are the capacity, and once the queue is closed, that it is and whom
it accepted (`Follows`).
-/
namespace Provisioning
namespace WorkQueue

/-! ### The three lists -/

@[simp] theorem accepted_record (q : WorkQueue) (e : QueueEvent) :
    (q.record e).accepted = q.accepted ++ (acceptedBy? e).toList := by
  cases h : acceptedBy? e <;> simp [accepted, record, h]

@[simp] theorem taken_record (q : WorkQueue) (e : QueueEvent) :
    (q.record e).taken = q.taken ++ (takenBy? e).toList := by
  cases h : takenBy? e <;> simp [taken, record, h]

@[simp] theorem waiting_record (q : WorkQueue) (e : QueueEvent) :
    (q.record e).waiting = q.waiting := rfl

@[simp] theorem accepted_push (q : WorkQueue) (item : QueueItem) :
    (q.push item).accepted = q.accepted := rfl

@[simp] theorem taken_push (q : WorkQueue) (item : QueueItem) :
    (q.push item).taken = q.taken := rfl

@[simp] theorem waiting_push (q : WorkQueue) (item : QueueItem) :
    (q.push item).waiting = q.waiting ++ (waitingIn? item).toList := by
  cases h : waitingIn? item <;> simp [waiting, push, h]

/-! ### The kinds of steps -/

/-- One step of a queue, whoever takes it. -/
inductive Step (q : WorkQueue) : WorkQueue → Prop
  | stay : Step q q
  | start : Step q q.start
  | failStart : Step q q.failStart
  /-- A producer is not let in. -/
  | refuse {job : Job} (shut : q.accepting = false) : Step q (q.record (.produced job false))
  | produce {job : Job} : Step q (q.produce job).2
  | close : Step q q.close
  | sendStop : Step q q.sendStop
  | sendBarrier (room : q.hasRoom = true) : Step q (q.push .barrier)
  /-- An action of the running job comes to its end. -/
  | act {job : Job} {actions rest : List JobAction} {a : JobAction}
    (running : q.worker = .working job actions) : Step q (q.act job rest a)
  | work : Step q q.work

/-! ### What no step changes -/

/-- What every step leaves as it is: the capacity, and once the queue is closed that it is, and
whom it accepted. -/
structure Follows (q q' : WorkQueue) : Prop where
  capacity : q'.capacity = q.capacity
  shut : q.accepting = false → q'.accepting = false ∧ q'.accepted = q.accepted

namespace Follows

variable {q q' q'' : WorkQueue}

theorem refl (q : WorkQueue) : Follows q q := ⟨rfl, fun h => ⟨h, rfl⟩⟩

theorem trans (h : Follows q q') (h' : Follows q' q'') : Follows q q'' where
  capacity := h'.capacity.trans h.capacity
  shut hacc :=
    have hfirst := h.shut hacc
    have hsecond := h'.shut hfirst.1
    ⟨hsecond.1, hsecond.2.trans hfirst.2⟩

/-- A step that notes nothing. -/
theorem of_history (hcap : q'.capacity = q.capacity)
    (hacc : q.accepting = false → q'.accepting = false) (hhist : q'.history = q.history) :
    Follows q q' :=
  ⟨hcap, fun h => ⟨hacc h, by rw [accepted, accepted, hhist]⟩⟩

/-- A step that notes something, but nobody's acceptance unless the queue accepts. -/
theorem of_event (e : QueueEvent) (hcap : q'.capacity = q.capacity)
    (hacc : q'.accepting = q.accepting) (hhist : q'.history = q.history ++ [e])
    (he : q.accepting = false → acceptedBy? e = none) : Follows q q' where
  capacity := hcap
  shut h := ⟨hacc.trans h, by simp [accepted, hhist, he h]⟩

theorem act (q : WorkQueue) (job : Job) (rest : List JobAction) (a : JobAction) :
    Follows q (q.act job rest a) := by
  cases a with
  | schedule id actions =>
    simp only [WorkQueue.act]
    split
    · next hroom =>
      simp only [Bool.and_eq_true] at hroom
      exact .of_event (.scheduled ⟨id, actions⟩ true) rfl rfl rfl (by simp [hroom.1])
    · exact .of_event (.scheduled ⟨id, actions⟩ false) rfl rfl rfl fun _ => rfl
  | flush => exact .of_event .flushed rfl rfl rfl fun _ => rfl
  | terminate =>
    simp only [WorkQueue.act, close]
    split
    · exact .of_history rfl (fun _ => rfl) rfl
    · exact .of_event (.terminated false) rfl rfl rfl fun _ => rfl
  | crash => exact .of_history rfl id rfl

theorem work (q : WorkQueue) : Follows q q.work := by
  unfold WorkQueue.work
  split
  · exact refl q
  · exact refl q
  · exact refl q
  · split
    · exact refl q
    · next job rest _ => exact .of_event (.run job) rfl rfl rfl fun _ => rfl
    · exact .of_history rfl id rfl
    · exact .of_history rfl id rfl
  · next job _ => exact .of_event (.done job) rfl rfl rfl fun _ => rfl
  · exact act q _ _ _
  · split
    · exact .of_event (.terminated q.accepting) rfl rfl rfl fun _ => rfl
    · exact refl q

theorem step (h : Step q q') : Follows q q' := by
  cases h with
  | stay => exact refl q
  | start =>
    unfold WorkQueue.start
    split <;> exact .of_history rfl id rfl
  | failStart =>
    unfold WorkQueue.failStart
    split <;> exact .of_history rfl id rfl
  | @refuse job => exact .of_event (.produced job false) rfl rfl rfl fun _ => rfl
  | @produce job =>
    unfold WorkQueue.produce
    split_ifs with hshut
    · exact .of_event (.produced job false) rfl rfl rfl fun _ => rfl
    · exact .of_event (.produced job true) rfl rfl rfl fun h => by simp [h] at hshut
    · exact refl q
  | close =>
    unfold WorkQueue.close
    split
    · exact .of_history rfl (fun _ => rfl) rfl
    · exact refl q
  | sendStop =>
    unfold WorkQueue.sendStop
    split
    · exact refl q
    · exact .of_history rfl id rfl
    · split <;> exact .of_history rfl id rfl
  | sendBarrier => exact .of_history rfl id rfl
  | act => exact act q _ _ _
  | work => exact work q

end Follows

end WorkQueue

namespace Traffic

variable {s : Traffic} {job : Job} {actions rest : List JobAction}

/-! ### Steps of those around a queue -/

theorem step_act (hw : s.queue.worker = .working job actions) (a : JobAction) :
    WorkQueue.Step s.queue (s.act job rest a).queue := .act (a := a) hw

theorem step_begin (hw : s.queue.worker = .working job actions) (a : JobAction) :
    WorkQueue.Step s.queue (s.begin job rest a).queue := by
  cases a with
  | schedule id acts =>
    simp only [begin]
    split
    · exact step_act hw _
    · exact .stay
  | flush =>
    simp only [begin]
    split
    · exact step_act hw _
    · exact .stay
  | terminate => exact .stay
  | crash => exact step_act hw _

theorem step_resume (hw : s.queue.worker = .working job actions) (call : PendingCall) :
    WorkQueue.Step s.queue (s.resume job rest call).queue := by
  cases call with
  | schedule id acts =>
    simp only [resume]
    split
    · exact step_act hw _
    · exact .stay
  | flush =>
    simp only [resume]
    split
    · exact .stay
    · exact step_act hw _
  | bar =>
    simp only [resume]
    split
    · next hroom => exact .sendBarrier hroom
    · exact .stay
  | await => exact .stay
  | terminate =>
    simp only [resume]
    split
    · exact step_act hw _
    · exact .stay

/-- **Whatever happens around a queue, the queue itself takes one step or none.** -/
theorem step_move (s : Traffic) (m : TrafficMove) :
    WorkQueue.Step s.queue (s.move m).queue := by
  cases m with
  | spawn => exact .start
  | fail => exact .failStart
  | enroll =>
    simp only [move]
    split
    · split <;> exact .stay
    · exact .stay
  | enter job =>
    simp only [move]
    split
    · exact .stay
    · next hshut => exact .refuse (Bool.eq_false_iff.mpr hshut)
  | send n =>
    simp only [move, send]
    split
    · exact .stay
    · next job _ =>
      split
      · exact .stay
      · next q hproduced =>
        have hq : q = (s.queue.produce job).2 := by rw [hproduced]
        rw [hq]
        exact .produce
  | close =>
    simp only [move]
    split
    · exact .close
    · exact .stay
  | sendStop => exact .sendStop
  | dismiss =>
    simp only [move]
    split <;> exact .stay
  | flush =>
    simp only [move]
    split <;> exact .stay
  | sendBarrier =>
    simp only [move]
    split
    · next hroom => exact .sendBarrier hroom.2
    · exact .stay
  | work =>
    simp only [move, work]
    split
    · next hw _ => exact step_resume hw _
    · next hw _ => exact step_begin hw _
    · exact .work
    · exact .stay
  | improvise a =>
    simp only [move, improvise]
    split
    · next hw _ => exact step_begin hw _
    · exact .stay

theorem follows_run (s : Traffic) (moves : List TrafficMove) :
    WorkQueue.Follows s.queue (s.run moves).queue := by
  induction moves generalizing s with
  | nil => exact .refl _
  | cons m moves ih => exact (WorkQueue.Follows.step (s.step_move m)).trans (ih (s.move m))

end Traffic
end Provisioning
