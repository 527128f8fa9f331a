import Provisioning.Proofs.Standstill

/-! # First in, first out

Producers, the callers that start and terminate a queue, and its worker take their steps in any
order.  The theorem is `run_in_order`: what the worker has taken, followed by what waits, is at
every moment what was accepted, in the order of acceptance, unless a start has failed.

Nothing is lost otherwise because the stop is sent once nobody is accepted any more.  `Orderly` says
this of the channel: while the queue accepts, no stop is in it or on its way, and once a stop is in
the channel, no job stands behind it.  A worker that meets the stop leaves no job behind for that
reason.  `Guarded` says it of the producers: the queue is not closed while one of them is inside.

Where the channel is full, a job is refused what it schedules exactly if the queue knows its worker
or is closed.  A worker whose handle the queue has yet to get waits for room instead, and stands
still.

What a job does is not fixed beforehand: between two actions of its list it may take any
further one (`TrafficMove.improvise`), as a handler does that looks at its surroundings.
-/
namespace Provisioning

namespace WorkQueue

variable {q q' : WorkQueue}

/-! ### What stays true of a queue -/

/-- Whether somebody has begun to terminate the queue. -/
def IsClosing (q : WorkQueue) : Prop :=
  q.owesStop = true ∨ (∃ job rest, q.worker = .stopping job rest) ∨ q.worker = .stopped ∨
    QueueItem.stop ∈ q.channel

/-- What holds of a queue between any two steps. -/
structure Orderly (q : WorkQueue) : Prop where
  line : q.worker ≠ .failed → q.taken ++ q.waiting = q.accepted
  unserved : q.worker = .unstarted ∨ q.worker = .failed → q.taken = []
  lost : q.worker = .failed → q.waiting = []
  shut : q.IsClosing → q.accepting = false
  behind : q.channel.Pairwise fun a b => a = .stop → waitingIn? b = none
  emptied : q.worker = .stopped → q.waiting = []
  bounded : ∀ n, q.capacity = some n → q.channel.length ≤ n

theorem orderly_new (name : String) (capacity : Option Nat) :
    Orderly { name := name, capacity := capacity } where
  line _ := rfl
  unserved _ := rfl
  lost _ := rfl
  shut h := by simp [IsClosing] at h
  behind := List.Pairwise.nil
  emptied h := by cases h
  bounded n _ := Nat.zero_le n

/-- A channel of some capacity that has room holds less than it may. -/
theorem length_lt_of_hasRoom (hroom : q.hasRoom = true) {n : Nat} (hcap : q.capacity = some n)
    (hpos : q.capacity ≠ some 0) : q.channel.length < n := by
  obtain ⟨n, rfl⟩ := Nat.exists_eq_succ_of_ne_zero (fun h0 : n = 0 => hpos (h0 ▸ hcap))
  simpa [hasRoom, hcap] using hroom

theorem hasFailed_eq_false_iff : q.hasFailed = false ↔ q.worker ≠ .failed := by
  unfold hasFailed
  split <;> simp_all

namespace Orderly

variable (h : q.Orderly)

include h in
/-- To note what neither accepts nor takes a job changes nothing. -/
theorem note {e : QueueEvent} (ha : acceptedBy? e = none) (ht : takenBy? e = none) :
    (q.record e).Orderly where
  line hlive := by simpa [ha, ht] using h.line hlive
  unserved hidle := by simpa [ht] using h.unserved hidle
  lost := h.lost
  shut := h.shut
  behind := h.behind
  emptied := h.emptied
  bounded := h.bounded

include h in
/-- A worker that turns to a job, or back from one, is there and has not met the stop. -/
theorem turn (hlive : q.worker ≠ .failed) {w : WorkerState}
    (hw : w = .idle ∨ ∃ job rest, w = .working job rest) : Orderly { q with worker := w } := by
  obtain ⟨hstarted, hthere, hgoing, hopen⟩ : w ≠ .unstarted ∧ w ≠ .failed ∧ w ≠ .stopped ∧
      ∀ job rest, w ≠ .stopping job rest := by
    rcases hw with rfl | ⟨job, rest, rfl⟩ <;> simp
  refine ⟨fun _ => h.line hlive, fun hidle => ?_, fun hfailed => absurd hfailed hthere,
    fun hc => h.shut ?_, h.behind, fun hstopped => absurd hstopped hgoing, h.bounded⟩
  · exact hidle.elim (absurd · hstarted) (absurd · hthere)
  · rcases hc with howes | ⟨job, rest, hstopping⟩ | hstopped | hstop
    · exact .inl howes
    · exact absurd hstopping (hopen job rest)
    · exact absurd hstopped hgoing
    · exact .inr (.inr (.inr hstop))

include h in
/-- A queue that accepts nobody any more may owe the stop or not. -/
theorem closed (owes : Bool) : Orderly { q with accepting := false, owesStop := owes } where
  line := h.line
  unserved := h.unserved
  lost := h.lost
  shut _ := rfl
  behind := h.behind
  emptied := h.emptied
  bounded := h.bounded

include h in
/-- A job joins the line while the queue accepts, if anybody is to take it. -/
theorem acceptJob {job : Job} {e : QueueEvent} (ha : acceptedBy? e = some job)
    (ht : takenBy? e = none) (hlive : q.worker ≠ .failed) (hacc : q.accepting = true)
    (hroom : q.hasRoom = true) (hpos : q.capacity ≠ some 0) :
    Orderly ((q.push (.run job)).record e) := by
  have hopen : ¬q.IsClosing := fun hc => by simp [h.shut hc] at hacc
  refine ⟨fun _ => ?_, fun hidle => ?_, fun hfailed => absurd hfailed hlive, fun hc => h.shut ?_,
    ?_, fun hw => ?_, fun n hn => ?_⟩
  · simp [ha, ht, ← h.line hlive, waitingIn?]
  · simpa [ht] using h.unserved hidle
  · simpa [IsClosing, push, record] using hc
  · -- No stop is in the channel, so the job stands behind none.
    refine List.pairwise_append.2 ⟨h.behind, by simp, fun a hmem b _ hstop => ?_⟩
    exact absurd (.inr (.inr (.inr (hstop ▸ hmem)))) hopen
  · exact absurd (.inr (.inr (.inl hw))) hopen
  · have := length_lt_of_hasRoom hroom hn hpos
    simp [push, record]
    omega

include h in
/-- What is no job joins the line, a stop only where nobody is accepted any more. -/
theorem send {item : QueueItem} (hitem : waitingIn? item = none)
    (hstop : item = .stop → q.accepting = false) (hroom : q.hasRoom = true)
    (hpos : q.capacity ≠ some 0) : (q.push item).Orderly := by
  refine ⟨fun hlive => ?_, h.unserved, fun hfailed => ?_, fun hc => ?_, ?_, fun hw => ?_,
    fun n hn => ?_⟩
  · simpa [hitem] using h.line hlive
  · simpa [hitem] using h.lost hfailed
  · by_cases heq : item = .stop
    · exact hstop heq
    · refine h.shut ?_
      simpa [IsClosing, push, Ne.symm heq] using hc
  · exact List.pairwise_append.2 ⟨h.behind, by simp, by simp [hitem]⟩
  · simpa [hitem] using h.emptied hw
  · have := length_lt_of_hasRoom hroom hn hpos
    simp [push]
    omega

/-! ### One step -/

include h in
theorem start : q.start.Orderly := by
  unfold WorkQueue.start
  split
  · next hunstarted => exact h.turn (by simp [hunstarted]) (.inl rfl)
  · exact h

include h in
/-- What waits is lost with the channel. -/
theorem failStart : q.failStart.Orderly := by
  unfold WorkQueue.failStart
  split
  · next hunstarted =>
    refine ⟨fun hlive => absurd rfl hlive, fun _ => h.unserved (.inl hunstarted), fun _ => rfl,
      fun hc => h.shut ?_, List.Pairwise.nil, fun _ => rfl, fun n _ => Nat.zero_le n⟩
    rcases hc with howes | ⟨_, _, hstopping⟩ | hstopped | hstop
    · exact .inl howes
    · cases hstopping
    · cases hstopped
    · cases hstop
  · exact h

include h in
theorem produce (hpos : q.capacity ≠ some 0) (job : Job) : (q.produce job).2.Orderly := by
  unfold WorkQueue.produce
  split_ifs with hshut hroom
  · exact h.note rfl rfl
  · simp only [Bool.or_eq_true, Bool.not_eq_true', not_or, Bool.not_eq_false,
      Bool.not_eq_true] at hshut
    exact h.acceptJob rfl rfl (hasFailed_eq_false_iff.mp hshut.2) hshut.1 hroom hpos
  · exact h

include h in
theorem close : q.close.Orderly := by
  unfold WorkQueue.close
  split_ifs
  · exact h.closed true
  · exact h

include h in
/-- A stop that is owed can be sent, or need not be sent where nobody is to take it. -/
theorem sendStop (hpos : q.capacity ≠ some 0) : q.sendStop.Orderly := by
  unfold WorkQueue.sendStop
  split
  · exact h
  · cases howes : q.owesStop with
    | true => simpa [← h.shut (.inl howes)] using h.closed false
    | false => simpa [← howes] using h
  · split_ifs with hsend
    · simp only [Bool.and_eq_true] at hsend
      have hacc := h.shut (.inl hsend.1)
      have hsent : (q.push .stop).Orderly := h.send rfl (fun _ => hacc) hsend.2 hpos
      simpa [push, ← hacc] using hsent.closed false
    · exact h

include h in
theorem act (hpos : q.capacity ≠ some 0) (hlive : q.worker ≠ .failed) (job : Job)
    (rest : List JobAction) (a : JobAction) : (q.act job rest a).Orderly := by
  cases a with
  | schedule id actions =>
    simp only [WorkQueue.act]
    split
    · next hroom =>
      simp only [Bool.and_eq_true] at hroom
      exact (h.acceptJob rfl rfl hlive hroom.1 hroom.2 hpos).turn hlive (.inr ⟨_, _, rfl⟩)
    · exact (h.note rfl rfl).turn hlive (.inr ⟨_, _, rfl⟩)
  | flush => exact (h.note rfl rfl).turn hlive (.inr ⟨_, _, rfl⟩)
  | terminate =>
    simp only [WorkQueue.act]
    split
    · next hacc =>
      simp only [WorkQueue.close, hacc, if_true]
      exact ⟨fun _ => h.line hlive, by simp, by simp, fun _ => rfl, h.behind, by simp, h.bounded⟩
    · exact (h.note rfl rfl).turn hlive (.inr ⟨_, _, rfl⟩)
  | crash => exact h.turn hlive (.inl rfl)

include h in
/-- An idle worker takes what stands in front: a job goes from the waiting ones to the taken
ones, and only a stop stops the worker. -/
theorem advance {item : QueueItem} {rest : List QueueItem} {w : WorkerState}
    {history : List QueueEvent} (hidle : q.worker = .idle) (hfront : q.channel = item :: rest)
    (ht : history.filterMap takenBy? = q.taken ++ (waitingIn? item).toList)
    (ha : history.filterMap acceptedBy? = q.accepted)
    (hw : w = .stopped ∧ item = .stop ∨ w = .idle ∨ ∃ job rest, w = .working job rest) :
    Orderly { q with channel := rest, worker := w, history := history } := by
  have hbehind := List.pairwise_cons.1 (hfront ▸ h.behind)
  have hline : q.taken ++ (item :: rest).filterMap waitingIn? = q.accepted :=
    hfront ▸ h.line (by simp [hidle])
  have hthere : w ≠ .unstarted ∧ w ≠ .failed ∧ ∀ job rest, w ≠ .stopping job rest := by
    rcases hw with ⟨rfl, -⟩ | rfl | ⟨job, rest, rfl⟩ <;> simp
  have hstop : w = .stopped → item = .stop := by
    rintro rfl
    simpa using hw
  refine ⟨fun _ => ?_, fun hnone => ?_, fun hfailed => absurd hfailed hthere.2.1,
    fun hc => h.shut ?_, hbehind.2, fun hstopped => ?_, fun n hn => ?_⟩
  · change history.filterMap takenBy? ++ rest.filterMap waitingIn? =
      history.filterMap acceptedBy?
    rw [ht, ha, ← hline]
    cases hitem : waitingIn? item <;> simp [hitem]
  · exact hnone.elim (absurd · hthere.1) (absurd · hthere.2.1)
  · rcases hc with howes | ⟨job, rest, hstopping⟩ | hstopped | hmem
    · exact .inl howes
    · exact absurd hstopping (hthere.2.2 job rest)
    · exact .inr (.inr (.inr (by simp [hfront, hstop hstopped])))
    · exact .inr (.inr (.inr (hfront ▸ List.mem_cons_of_mem _ hmem)))
  · -- The stop was in front, and no job stands behind one.
    exact List.filterMap_eq_nil_iff.2 fun b hb => hbehind.1 b hb (hstop hstopped)
  · have hlen := h.bounded n hn
    rw [hfront, List.length_cons] at hlen
    exact Nat.le_of_succ_le hlen

include h in
/-- A job that terminates the queue sends the stop and goes on. -/
theorem finishTerminate (hpos : q.capacity ≠ some 0) {job : Job} {rest : List JobAction}
    (hw : q.worker = .stopping job rest) (hroom : q.hasRoom = true) :
    Orderly { (q.push .stop).record (.terminated q.accepting) with
      owesStop := false, worker := .working job rest } := by
  have hacc := h.shut (.inr (.inl ⟨job, rest, hw⟩))
  have hsent : (q.push .stop).Orderly := h.send rfl (fun _ => hacc) hroom hpos
  have hnoted := (hsent.note (e := .terminated q.accepting) rfl rfl).closed false
  have := hnoted.turn (w := .working job rest) (by simp [push, record, hw]) (.inr ⟨_, _, rfl⟩)
  simpa [WorkQueue.push, WorkQueue.record, ← hacc] using this

include h in
theorem work (hpos : q.capacity ≠ some 0) : q.work.Orderly := by
  unfold WorkQueue.work
  split
  · exact h
  · exact h
  · exact h
  · next hidle =>
    split
    · exact h
    · next job rest hfront =>
      exact h.advance hidle hfront (taken_record q (.run job))
        ((accepted_record q (.run job)).trans (List.append_nil _)) (.inr (.inr ⟨_, _, rfl⟩))
    · next rest hfront =>
      have := h.advance hidle hfront (w := .idle) (by simp [taken, waitingIn?]) rfl
        (.inr (.inl rfl))
      simpa [← hidle] using this
    · next rest hfront =>
      exact h.advance hidle hfront (by simp [taken, waitingIn?]) rfl (.inl ⟨rfl, rfl⟩)
  · next hw => exact (h.note rfl rfl).turn (by simp [record, hw]) (.inl rfl)
  · next hw => exact h.act hpos (by simp [hw]) _ _ _
  · next job rest hw =>
    split_ifs with hroom
    · exact h.finishTerminate hpos hw hroom
    · exact h

include h in
/-- Every step keeps a queue orderly. -/
theorem step (hpos : q.capacity ≠ some 0) (hstep : Step q q') : q'.Orderly := by
  cases hstep with
  | stay => exact h
  | start => exact h.start
  | failStart => exact h.failStart
  | refuse => exact h.note rfl rfl
  | produce => exact h.produce hpos _
  | close => exact h.close
  | sendStop => exact h.sendStop hpos
  | sendBarrier hroom => exact h.send rfl (by simp) hroom hpos
  | act hw => exact h.act hpos (by simp [hw]) _ _ _
  | work => exact h.work hpos

end Orderly

/-! ### What is answered -/

theorem accepted_produce (q : WorkQueue) (job : Job) :
    (q.produce job).2.accepted =
      q.accepted ++ if (q.produce job).1 = some true then [job] else [] := by
  unfold produce
  split
  · simp [acceptedBy?]
  · split <;> simp [acceptedBy?]

theorem history_act_schedule (q : WorkQueue) (job : Job) (rest : List JobAction) (id : Int)
    (actions : List JobAction) :
    (q.act job rest (.schedule id actions)).history =
      q.history ++ [.scheduled ⟨id, actions⟩ (q.accepting && q.hasRoom)] := by
  simp only [act]
  split
  · next hroom => rw [hroom]; rfl
  · next hroom => rw [Bool.eq_false_iff.2 hroom]; rfl

theorem accepted_act_schedule (q : WorkQueue) (job : Job) (rest : List JobAction) (id : Int)
    (actions : List JobAction) :
    (q.act job rest (.schedule id actions)).accepted =
      q.accepted ++ if q.accepting && q.hasRoom then [⟨id, actions⟩] else [] := by
  rw [accepted, history_act_schedule, List.filterMap_append]
  cases q.accepting && q.hasRoom <;> rfl

theorem hasRoom_eq_false {n : Nat} (hcap : q.capacity = some n) (hpos : q.capacity ≠ some 0)
    (hfull : n ≤ q.channel.length) : q.hasRoom = false :=
  Bool.eq_false_iff.2 fun hroom => absurd (length_lt_of_hasRoom hroom hcap hpos) (by omega)

theorem accepting_close (q : WorkQueue) : q.close.accepting = false := by
  unfold close
  split
  · rfl
  · next hacc => exact Bool.eq_false_iff.2 hacc

theorem accepting_act_terminate (q : WorkQueue) (job : Job) (rest : List JobAction) :
    (q.act job rest .terminate).accepting = false := by
  simp only [act]
  split
  · exact q.accepting_close
  · next hacc => exact Bool.eq_false_iff.2 hacc

end WorkQueue

namespace Traffic

variable {s : Traffic} {job : Job} {actions rest : List JobAction}

/-! ### Runs -/

theorem orderly_run (h : s.queue.Orderly) (hpos : s.queue.capacity ≠ some 0)
    (moves : List TrafficMove) : (s.run moves).queue.Orderly := by
  induction moves generalizing s with
  | nil => exact h
  | cons m moves ih =>
    have hstep := s.step_move m
    exact ih (h.step hpos hstep) ((WorkQueue.Follows.step hstep).capacity ▸ hpos)

theorem isClear_of_inside (hinside : s.inside.isEmpty = false) : s.isClear = false := by
  unfold isClear
  split
  · rfl
  · exact hinside

/-- Nobody closes the queue while somebody is inside who was let in. -/
def Guarded (s : Traffic) : Prop := s.isClear = false → s.queue.accepting = true

namespace Guarded

variable (h : s.Guarded)

include h in
/-- A step that neither lets anybody in nor closes the queue. -/
theorem of_inside {s' : Traffic} (hacc : s'.queue.accepting = s.queue.accepting)
    (hclear : s'.isClear = false → s.isClear = false) : s'.Guarded :=
  fun hinside => hacc.trans (h (hclear hinside))

include h in
/-- An action comes to its end that does not close the queue. -/
theorem act {a : JobAction} (ha : a ≠ .terminate) : (s.act job rest a).Guarded := by
  refine h.of_inside ?_ fun hinside => isClear_of_inside hinside
  cases a with
  | schedule id actions =>
    simp only [Traffic.act, WorkQueue.act]
    split <;> rfl
  | flush => rfl
  | terminate => exact absurd rfl ha
  | crash => rfl

include h in
theorem begin (a : JobAction) : (s.begin job rest a).Guarded := by
  cases a with
  | schedule id actions =>
    simp only [Traffic.begin]
    split
    · exact h.act (by simp)
    · next hopen =>
      -- The job is let in like a producer, and so the queue accepts.
      simp only [Bool.or_eq_true, not_or, Bool.not_eq_true', Bool.not_eq_false] at hopen
      exact fun _ => hopen.2
  | flush =>
    simp only [Traffic.begin]
    split
    · exact h.act (by simp)
    · exact h.of_inside rfl fun hinside => isClear_of_inside hinside
  | terminate => exact h.of_inside rfl fun hinside => isClear_of_inside hinside
  | crash => exact h.act (by simp)

include h in
theorem resume (call : PendingCall) : (s.resume job rest call).Guarded := by
  cases call with
  | schedule id actions =>
    simp only [Traffic.resume]
    split
    · exact h.act (by simp)
    · exact h
  | flush =>
    simp only [Traffic.resume]
    split
    · exact h.of_inside rfl fun hinside => isClear_of_inside hinside
    · exact h.act (by simp)
  | bar =>
    simp only [Traffic.resume]
    split
    · exact h.of_inside rfl fun hinside => isClear_of_inside hinside
    · exact h
  | await => exact h
  | terminate =>
    simp only [Traffic.resume]
    split
    · next hempty =>
      -- The queue may be closed now, but nobody is inside.
      intro hinside
      rw [isClear, Traffic.act, hempty] at hinside
      cases hinside
    · exact h

include h in
theorem send (n : Nat) : (s.send n).Guarded := by
  simp only [Traffic.send]
  split
  · exact h
  · next job hn =>
    split
    · exact h
    · next q hproduced =>
      have hq : q = (s.queue.produce job).2 := by rw [hproduced]
      refine h.of_inside ?_ fun _ => isClear_of_inside ?_
      · rw [hq]
        unfold WorkQueue.produce
        split
        · rfl
        · split <;> rfl
      · cases hs : s.inside with
        | nil => simp [hs] at hn
        | cons first others => rfl

include h in
/-- A worker that is about to begin nothing closes nothing. -/
theorem work (hw : ∀ job a rest, s.queue.worker ≠ .working job (a :: rest)) :
    Guarded { s with queue := s.queue.work } := by
  refine h.of_inside ?_ id
  unfold WorkQueue.work
  split
  · rfl
  · rfl
  · rfl
  · split <;> rfl
  · rfl
  · next hworking => exact absurd hworking (hw _ _ _)
  · split <;> rfl

include h in
theorem move (m : TrafficMove) : (s.move m).Guarded := by
  cases m with
  | spawn =>
    refine h.of_inside ?_ id
    simp only [Traffic.move, WorkQueue.start]
    split <;> rfl
  | fail =>
    refine h.of_inside ?_ id
    simp only [Traffic.move, WorkQueue.failStart]
    split <;> rfl
  | enroll =>
    simp only [Traffic.move]
    split
    · split <;> exact h
    · exact h
  | enter job =>
    simp only [Traffic.move]
    split
    · next hacc => exact fun _ => hacc
    · exact h
  | send n => exact h.send n
  | close =>
    simp only [Traffic.move]
    split
    · next hclear => exact fun hinside => absurd hclear (Bool.eq_false_iff.mp hinside)
    · exact h
  | sendStop =>
    refine h.of_inside ?_ id
    simp only [Traffic.move, WorkQueue.sendStop]
    split
    · rfl
    · rfl
    · split <;> rfl
  | dismiss =>
    simp only [Traffic.move]
    split <;> exact h
  | flush =>
    simp only [Traffic.move]
    split <;> exact h
  | sendBarrier =>
    simp only [Traffic.move]
    split <;> exact h
  | work =>
    simp only [Traffic.move, Traffic.work]
    split
    · exact h.resume _
    · exact h.begin _
    · next hw => exact h.work fun job a rest hworking => hw _ _ _ hworking
    · exact h
  | improvise a =>
    simp only [Traffic.move, Traffic.improvise]
    split
    · exact h.begin a
    · exact h

include h in
theorem run (moves : List TrafficMove) : (s.run moves).Guarded := by
  induction moves generalizing s with
  | nil => exact h
  | cons m moves ih => exact ih (h.move m)

end Guarded

/-! ### In order -/

/-- What a job is told that is refused what it schedules. -/
def refuse (s : Traffic) (job : Job) (rest : List JobAction) (other : Job) : Traffic :=
  { s with
    queue := { s.queue.record (.scheduled other false) with worker := .working job rest }
    pending := none }

/-- What can be relied on at any moment of a queue. -/
structure InOrder (s : Traffic) : Prop where
  /-- The jobs that were taken, then those that wait, are the accepted ones, each once and in
  the order of acceptance, unless a start has failed that was to serve them. -/
  line : s.queue.taken ++ s.queue.waiting = s.queue.accepted ↔
    (s.queue.worker = .failed → s.queue.accepted = [])
  /-- Nothing is left of them then. -/
  lost : s.queue.worker = .failed → s.queue.taken = [] ∧ s.queue.waiting = []
  /-- A producer's job is accepted by the call that answers so, and by no other. -/
  produced : ∀ job, (s.queue.produce job).2.accepted =
    s.queue.accepted ++ if (s.queue.produce job).1 = some true then [job] else []
  /-- So is the job of a job that is answered at once. -/
  scheduled : ∀ job rest id actions,
    (s.queue.act job rest (.schedule id actions)).history =
        s.queue.history ++ [.scheduled ⟨id, actions⟩ (s.queue.accepting && s.queue.hasRoom)] ∧
      (s.queue.act job rest (.schedule id actions)).accepted =
        s.queue.accepted ++
          if s.queue.accepting && s.queue.hasRoom then [⟨id, actions⟩] else []
  /-- Whoever was let in finds the queue accepting. -/
  guarded : s.Guarded
  /-- Whoever terminates the queue, a caller or a job, closes it. -/
  closes : s.queue.close.accepting = false ∧
    ∀ job rest, (s.queue.act job rest .terminate).accepting = false
  /-- Once it is closed, nobody is accepted any more. -/
  shut : s.queue.accepting = false → ∀ moves,
    (s.run moves).queue.accepting = false ∧ (s.run moves).queue.accepted = s.queue.accepted
  bounded : ∀ n, s.queue.capacity = some n →
    s.queue.channel.length ≤ n ∧ s.queue.waiting.length ≤ n
  /-- A job that schedules onto its own full queue is refused, and goes on, exactly if the queue
  knows its worker or is closed. -/
  refused : ∀ n, s.queue.capacity = some n → n ≤ s.queue.channel.length →
    ∀ job rest id actions,
      s.begin job rest (.schedule id actions) = s.refuse job rest ⟨id, actions⟩ ↔
        s.isKnown = true ∨ s.queue.accepting = false
  /-- If not, it waits for room that never comes. -/
  stuck : ∀ n, s.queue.capacity = some n → n ≤ s.queue.channel.length →
    ∀ job others rest id actions, s.queue.worker = .working job others →
      s.isKnown = false → s.queue.accepting = true →
        (s.begin job rest (.schedule id actions)).queue = s.queue ∧
          ∀ moves, Still (s.begin job rest (.schedule id actions))
            ((s.begin job rest (.schedule id actions)).run moves)
  /-- A worker that has stopped has run what was accepted. -/
  emptied : s.queue.worker = .stopped → s.queue.waiting = [] ∧ s.queue.taken = s.queue.accepted

theorem line_iff (h : s.queue.Orderly) : s.queue.taken ++ s.queue.waiting = s.queue.accepted ↔
    (s.queue.worker = .failed → s.queue.accepted = []) := by
  by_cases hfailed : s.queue.worker = .failed
  · rw [h.unserved (.inr hfailed), h.lost hfailed, List.nil_append]
    exact ⟨fun hnone _ => hnone.symm, fun hnone => (hnone hfailed).symm⟩
  · exact iff_of_true (h.line hfailed) (absurd · hfailed)

theorem begin_schedule (s : Traffic) (job : Job) (rest : List JobAction) (id : Int)
    (actions : List JobAction) (hopen : s.isKnown = false) (hacc : s.queue.accepting = true) :
    s.begin job rest (.schedule id actions) =
      { s with pending := some (.schedule id actions, rest) } := by
  simp [begin, hopen, hacc]

/-- Who is refused for want of room. -/
theorem begin_eq_refuse_iff (hfull : s.queue.hasRoom = false) (id : Int) :
    s.begin job rest (.schedule id actions) = s.refuse job rest ⟨id, actions⟩ ↔
      s.isKnown = true ∨ s.queue.accepting = false := by
  by_cases hknown : s.isKnown = true ∨ s.queue.accepting = false
  · refine iff_of_true ?_ hknown
    have hanswered : (s.isKnown || !s.queue.accepting) = true := by simpa using hknown
    simp [begin, hanswered, act, WorkQueue.act, hfull, refuse]
  · obtain ⟨hopen, hacc⟩ := not_or.mp hknown
    refine iff_of_false (fun heq => ?_) hknown
    rw [s.begin_schedule job rest id actions (Bool.eq_false_iff.mpr hopen)
      (by simpa using hacc)] at heq
    cases congrArg Traffic.pending heq

/-- Who is not refused then does not go on. -/
theorem still_begin (hfull : s.queue.hasRoom = false) {others : List JobAction}
    (hw : s.queue.worker = .working job others) (hopen : s.isKnown = false)
    (hacc : s.queue.accepting = true) (id : Int) (moves : List TrafficMove) :
    Still (s.begin job rest (.schedule id actions))
      ((s.begin job rest (.schedule id actions)).run moves) :=
  still_run ((isBlocked_begin hw).mpr ⟨⟨_, _, rfl⟩, hopen, hacc, hfull⟩) moves

/-- **A queue of any capacity but none at all is in order, whoever takes the next step**: nothing
is lost but by a start that fails, and a job waits for room exactly where the queue has yet to get
the handle of its worker. -/
theorem run_in_order (name : String) (capacity : Option Nat) (hpos : capacity ≠ some 0)
    (moves : List TrafficMove) :
    ((opened name capacity).run moves).queue.capacity = capacity ∧
      ((opened name capacity).run moves).InOrder := by
  have hcapacity := ((opened name capacity).follows_run moves).capacity
  have h := orderly_run (s := opened name capacity) (WorkQueue.orderly_new name capacity) hpos moves
  have hguarded : ((opened name capacity).run moves).Guarded := Guarded.run (fun _ => rfl) moves
  generalize (opened name capacity).run moves = s at h hcapacity hguarded
  have hpos' : s.queue.capacity ≠ some 0 := hcapacity ▸ hpos
  refine ⟨hcapacity, line_iff h, ?_, s.queue.accepted_produce, ?_, hguarded, ?_, ?_, ?_, ?_, ?_, ?_⟩
  · exact fun hfailed => ⟨h.unserved (.inr hfailed), h.lost hfailed⟩
  · exact fun job rest id actions => ⟨s.queue.history_act_schedule job rest id actions,
      s.queue.accepted_act_schedule job rest id actions⟩
  · exact ⟨s.queue.accepting_close, s.queue.accepting_act_terminate⟩
  · exact fun hshut moves => (s.follows_run moves).shut hshut
  · exact fun n hn => ⟨h.bounded n hn, Nat.le_trans (List.length_filterMap_le _ _) (h.bounded n hn)⟩
  · intro n hn hlen job rest id actions
    exact begin_eq_refuse_iff (WorkQueue.hasRoom_eq_false hn hpos' hlen) id
  · intro n hn hlen job others rest id actions hw hopen hacc
    refine ⟨by rw [s.begin_schedule job rest id actions hopen hacc], fun moves => ?_⟩
    exact still_begin (WorkQueue.hasRoom_eq_false hn hpos' hlen) hw hopen hacc id moves
  · intro hstopped
    have hnone := h.emptied hstopped
    exact ⟨hnone, by simpa [hnone] using h.line (by simp [hstopped])⟩

/-- In a channel for one, a job that schedules two others has the second refused; the queue is
closed while the first waits, which is run all the same before the worker stops. -/
theorem run_in_order_one_place :
    let moves : List TrafficMove :=
      [.spawn, .enroll, .enter ⟨0, [.schedule 1 [.crash], .schedule 2 []]⟩, .send 0, .work, .work,
        .work, .work, .close, .sendStop, .work, .enter ⟨3, []⟩, .sendStop, .work, .work]
    let s := (opened "q" (some 1)).run moves
    some 1 ≠ some 0 ∧ (s.queue.capacity = some 1 ∧ s.InOrder) ∧
      s.queue.accepted.map Job.id = [0, 1] ∧ s.queue.isStarted = true ∧
        s.queue.isRunning = false :=
  ⟨by decide, run_in_order "q" (some 1) (by decide) _, by decide, by decide, by decide⟩

/-- A thread cannot have the name of the first queue; a job that it accepted is lost with the start
that fails.  In the second, a channel for one, a job runs before the queue has the handle of its
worker; it is not refused the second job that it schedules, and does not go on. -/
theorem run_out_of_order :
    let unnamed := opened "a\x00b" none
    let lost := unnamed.run [.enter ⟨0, []⟩, .send 0, .fail]
    let early := (opened "q" (some 1)).run
      [.enter ⟨0, [.schedule 1 [], .schedule 2 []]⟩, .send 0, .spawn, .work, .work, .work]
    (unnamed.queue.hasThreadName = false ∧ lost.queue.accepted.map Job.id = [0] ∧
        lost.queue.taken ++ lost.queue.waiting = []) ∧
      early.queue.channel.length = 1 ∧ (early.move .work).queue.history = early.queue.history ∧
        (early.move .work).isBlocked = true :=
  ⟨⟨by decide, rfl, rfl⟩, rfl, rfl, rfl⟩

end Traffic
end Provisioning
