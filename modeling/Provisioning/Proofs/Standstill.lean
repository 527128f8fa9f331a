import Provisioning.Proofs.QueueSteps

/-! # When the worker stands still

A worker that sends something itself waits for room in a channel that nobody else empties.  Calls of
a job are made so that this does not come about: the queue knows the worker by its handle, and then
a job is scheduled only if there is room, and a flush does nothing.  `Commits` lists what is left:
the stop that a job sends when it terminates the queue, and the calls of a worker whose handle is
not there yet.  If the channel is full then, or is filled by others before the worker comes to it,
the worker stands still (`Traps`), and so it remains (`Still`).
-/
namespace Provisioning

namespace Traffic

/-! ### Standing still -/

/-- Whether the worker is in the middle of a job and sends something to its own channel, for which
it waits if there is no room.  (A flush that waits for its own barrier, and a termination that waits
for those inside, do not send.) -/
def isSending (s : Traffic) : Bool :=
  match s.queue.worker, s.pending with
  | .stopping _ _, none => true
  | .working _ _, some (.schedule _ _, _) => true
  | .working _ _, some (.bar, _) => true
  | _, _ => false

/-- Whether the worker waits in the middle of a job for room in its own channel. -/
def isBlocked (s : Traffic) : Bool := s.isSending && !s.queue.hasRoom

/-- A step by which the running job begins an action. -/
inductive Begins (s : Traffic) (a : JobAction) : TrafficMove → Prop
  | listed {job rest} : s.queue.worker = .working job (a :: rest) → s.pending = none →
    Begins s a .work
  | improvised {job actions} : s.queue.worker = .working job actions → s.pending = none →
    Begins s a (.improvise a)

/-- A step with which the worker comes to send something itself. -/
inductive Commits (s : Traffic) : TrafficMove → Prop
  /-- A job closes the queue that it terminates.  The stop comes next. -/
  | terminate {job actions rest} : s.queue.worker = .working job actions →
    s.pending = some (.terminate, rest) → s.inside = [] → s.queue.accepting = true →
    Commits s .work
  /-- A job schedules another one while the queue does not know the worker. -/
  | schedule {id actions m} : Begins s (.schedule id actions) m → s.isKnown = false →
    s.queue.accepting = true → Commits s m
  /-- A job flushes the queue, which comes to know the worker in the meantime. -/
  | flush {job actions rest} : s.queue.worker = .working job actions →
    s.pending = some (.flush, rest) → s.isKnown = true → Commits s .work

/-- A step with which the worker comes to a standstill. -/
inductive Traps (s : Traffic) (m : TrafficMove) : Prop
  /-- There is no room for what the worker sends. -/
  | full : Commits s m → s.queue.hasRoom = false → Traps s m
  /-- Somebody else takes the last room before the worker does. -/
  | filled : s.isSending = true → s.queue.hasRoom = true → m ≠ .work →
    (s.move m).queue.hasRoom = false → Traps s m

variable {s s' : Traffic} {job : Job} {rest actions : List JobAction} {m : TrafficMove}

/-! ### The worker remains where it is -/

/-- What a standstill leaves as it is. -/
structure Still (s s' : Traffic) : Prop where
  capacity : s'.queue.capacity = s.queue.capacity
  channel : s'.queue.channel = s.queue.channel
  worker : s'.queue.worker = s.queue.worker
  pending : s'.pending = s.pending

namespace Still

theorem refl (s : Traffic) : Still s s := ⟨rfl, rfl, rfl, rfl⟩

theorem trans {s'' : Traffic} (h : Still s s') (h' : Still s' s'') : Still s s'' where
  capacity := h'.capacity.trans h.capacity
  channel := h'.channel.trans h.channel
  worker := h'.worker.trans h.worker
  pending := h'.pending.trans h.pending

variable (h : Still s s')

include h in
theorem isSending : s'.isSending = s.isSending := by
  rw [Traffic.isSending, Traffic.isSending, h.worker, h.pending]

include h in
theorem hasRoom : s'.queue.hasRoom = s.queue.hasRoom := by
  unfold WorkQueue.hasRoom WorkQueue.isIdle
  rw [h.capacity, h.channel, h.worker]

include h in
theorem isBlocked : s'.isBlocked = s.isBlocked := by
  rw [Traffic.isBlocked, Traffic.isBlocked, h.isSending, h.hasRoom]

end Still

theorem isBlocked_iff : s.isBlocked = true ↔ s.isSending = true ∧ s.queue.hasRoom = false := by
  simp [isBlocked]

/-- A step of somebody else does not matter to the worker, or takes room that there is. -/
theorem still_or_room (hwork : m ≠ .work) (himprovise : ∀ a, m ≠ .improvise a) :
    Still s (s.move m) ∨ (s.move m).isSending = s.isSending ∧
      (s.isSending = true → s.queue.hasRoom = true) := by
  cases m with
  | spawn =>
    simp only [move, WorkQueue.start]
    split
    · next hunstarted => exact .inr (by simp [isSending, hunstarted])
    · exact .inl (.refl s)
  | fail =>
    simp only [move, WorkQueue.failStart]
    split
    · next hunstarted => exact .inr (by simp [isSending, hunstarted])
    · exact .inl (.refl s)
  | enroll =>
    simp only [move]
    split
    · split <;> exact .inl ⟨rfl, rfl, rfl, rfl⟩
    · exact .inl (.refl s)
  | enter job =>
    simp only [move]
    split <;> exact .inl ⟨rfl, rfl, rfl, rfl⟩
  | send n =>
    simp only [move, send, WorkQueue.produce]
    split
    · exact .inl (.refl s)
    · split
      · exact .inl (.refl s)
      · next hproduced =>
        split_ifs at hproduced with _ hroom <;> cases hproduced
        · exact .inl ⟨rfl, rfl, rfl, rfl⟩
        · exact .inr ⟨rfl, fun _ => hroom⟩
  | close =>
    simp only [move, WorkQueue.close]
    split
    · split <;> exact .inl ⟨rfl, rfl, rfl, rfl⟩
    · exact .inl (.refl s)
  | sendStop =>
    simp only [move, WorkQueue.sendStop]
    split
    · exact .inl (.refl s)
    · exact .inl ⟨rfl, rfl, rfl, rfl⟩
    · split
      · next hroom => exact .inr ⟨rfl, fun _ => (Bool.and_eq_true_iff.mp hroom).2⟩
      · exact .inl (.refl s)
  | dismiss =>
    simp only [move]
    split <;> exact .inl ⟨rfl, rfl, rfl, rfl⟩
  | flush =>
    simp only [move]
    split <;> exact .inl ⟨rfl, rfl, rfl, rfl⟩
  | sendBarrier =>
    simp only [move]
    split
    · next hroom => exact .inr ⟨rfl, fun _ => hroom.2⟩
    · exact .inl (.refl s)
  | work => exact absurd rfl hwork
  | improvise a => exact absurd rfl (himprovise a)

/-- A step of somebody else neither gets the worker to send nor relieves it of that. -/
theorem isSending_move (hwork : m ≠ .work) (himprovise : ∀ a, m ≠ .improvise a) :
    (s.move m).isSending = s.isSending := by
  rcases still_or_room (s := s) hwork himprovise with hstill | ⟨hsending, -⟩
  · exact hstill.isSending
  · exact hsending

/-- In which calls the worker sends. -/
theorem isSending_iff : s.isSending = true ↔
    (∃ job rest, s.queue.worker = .stopping job rest ∧ s.pending = none) ∨
      ∃ job actions call rest, s.queue.worker = .working job actions ∧
        s.pending = some (call, rest) ∧ ((∃ id acts, call = .schedule id acts) ∨ call = .bar) := by
  unfold isSending
  constructor
  · intro h
    split at h
    · next hw hp => exact .inl ⟨_, _, hw, hp⟩
    · next hw hp => exact .inr ⟨_, _, _, _, hw, hp, .inl ⟨_, _, rfl⟩⟩
    · next hw hp => exact .inr ⟨_, _, _, _, hw, hp, .inr rfl⟩
    · cases h
  · rintro (⟨job, rest, hw, hp⟩ | ⟨job, actions, call, rest, hw, hp, ⟨id, acts, rfl⟩ | rfl⟩)
    · rw [hw, hp]
    · rw [hw, hp]
    · rw [hw, hp]

/-- In the middle of a call the worker goes on with it. -/
theorem work_of_pending {call : PendingCall} (hw : s.queue.worker = .working job actions)
    (hp : s.pending = some (call, rest)) : s.work = s.resume job rest call := by
  rw [work, hw, hp]

theorem still_work (h : s.isBlocked = true) : Still s s.work := by
  obtain ⟨hsending, hfull⟩ := isBlocked_iff.mp h
  rcases isSending_iff.mp hsending with
    ⟨job, rest, hw, hp⟩ | ⟨job, actions, call, rest, hw, hp, ⟨id, acts, rfl⟩ | rfl⟩
  · have hwork : s.work = { s with queue := s.queue.work } := by
      unfold work
      rw [hw, hp]
    have hqueue : s.queue.work = s.queue := by
      unfold WorkQueue.work
      rw [hw]
      simp [hfull]
    rw [hwork, hqueue]
    exact .refl s
  · rw [work_of_pending hw hp, resume, hfull]
    exact .refl s
  · rw [work_of_pending hw hp, resume, hfull]
    exact .refl s

theorem improvise_of_isSending (h : s.isSending = true) (a : JobAction) : s.improvise a = s := by
  unfold improvise
  rcases isSending_iff.mp h with ⟨job, rest, hw, hp⟩ | ⟨job, actions, call, rest, hw, hp, -⟩
  · rw [hw]
  · rw [hw, hp]

/-- Whatever happens, a worker that waits for room in its own channel goes on waiting. -/
theorem still_move (h : s.isBlocked = true) (m : TrafficMove) : Still s (s.move m) := by
  obtain ⟨hsending, hfull⟩ := isBlocked_iff.mp h
  by_cases hwork : m = .work
  · subst hwork
    exact still_work h
  · by_cases himprovise : ∃ a, m = .improvise a
    · obtain ⟨a, rfl⟩ := himprovise
      rw [move, improvise_of_isSending hsending a]
      exact .refl s
    · rcases still_or_room (s := s) hwork (not_exists.mp himprovise) with hstill | ⟨-, hroom⟩
      · exact hstill
      · rw [hroom hsending] at hfull
        cases hfull

theorem still_run (h : s.isBlocked = true) (moves : List TrafficMove) : Still s (s.run moves) := by
  induction moves generalizing s with
  | nil => exact .refl s
  | cons m moves ih =>
    have hstep := still_move h m
    exact hstep.trans (ih (hstep.isBlocked.trans h))

/-! ### The worker comes to a standstill -/

theorem isSending_act {a : JobAction} (ha : a ≠ .terminate) :
    (s.act job rest a).isSending = false := by
  cases a with
  | schedule id actions =>
    simp only [act, WorkQueue.act]
    split <;> rfl
  | flush => rfl
  | terminate => exact absurd rfl ha
  | crash => rfl

/-- A termination that nobody anticipated leaves the worker sending, with the room that there
was. -/
theorem isBlocked_act_terminate (hw : s.queue.worker = .working job actions) :
    (s.act job rest .terminate).isBlocked = (s.queue.accepting && !s.queue.hasRoom) := by
  simp only [act, WorkQueue.act]
  split
  · next hacc =>
    simp [isBlocked, isSending, WorkQueue.hasRoom, WorkQueue.isIdle, WorkQueue.close, hacc, hw]
  · next hacc =>
    rw [Bool.eq_false_iff.mpr hacc]
    rfl

theorem isBlocked_begin {a : JobAction} (hw : s.queue.worker = .working job actions) :
    (s.begin job rest a).isBlocked = true ↔ (∃ id acts, a = .schedule id acts) ∧
      s.isKnown = false ∧ s.queue.accepting = true ∧ s.queue.hasRoom = false := by
  cases a with
  | schedule id acts =>
    simp only [begin]
    split
    · next hdone =>
      have hnot : (s.act job rest (.schedule id acts)).isSending = false := isSending_act (by simp)
      grind [isBlocked]
    · next hopen =>
      have hlate : s.isKnown = false ∧ s.queue.accepting = true := by simpa using hopen
      simp [isBlocked, isSending, hw, hlate]
  | flush =>
    simp only [begin]
    split
    · simp [isBlocked, isSending_act]
    · simp [isBlocked, isSending, hw]
  | terminate => simp [begin, isBlocked, isSending, hw]
  | crash => simp [begin, isBlocked, isSending_act]

/-- Which calls that are under way make the worker send. -/
theorem commits_iff_of_pending {call : PendingCall} (hw : s.queue.worker = .working job actions)
    (hp : s.pending = some (call, rest)) : Commits s m ↔ m = .work ∧
      ((call = .terminate ∧ s.inside = [] ∧ s.queue.accepting = true) ∨
        (call = .flush ∧ s.isKnown = true)) := by
  constructor
  · rintro (⟨hw', hp', hin, hacc⟩ | ⟨⟨hw', hp'⟩ | ⟨hw', hp'⟩, -, -⟩ | ⟨hw', hp', hknown⟩)
    · cases hp.symm.trans hp'
      exact ⟨rfl, .inl ⟨rfl, hin, hacc⟩⟩
    · cases hp.symm.trans hp'
    · cases hp.symm.trans hp'
    · cases hp.symm.trans hp'
      exact ⟨rfl, .inr ⟨rfl, hknown⟩⟩
  · rintro ⟨rfl, ⟨rfl, hin, hacc⟩ | ⟨rfl, hknown⟩⟩
    · exact .terminate hw hp hin hacc
    · exact .flush hw hp hknown

/-- Which actions make the worker send as they begin. -/
theorem commits_iff_of_begins {a : JobAction} (hb : Begins s a m) : Commits s m ↔
    (∃ id acts, a = .schedule id acts) ∧ s.isKnown = false ∧ s.queue.accepting = true := by
  constructor
  · rintro (⟨hw, hp, -, -⟩ | ⟨hb', hknown, hacc⟩ | ⟨hw, hp, -⟩)
    · cases hb with
      | listed _ hp' => cases hp.symm.trans hp'
    · refine ⟨?_, hknown, hacc⟩
      cases hb with
      | listed hw hp =>
        cases hb' with
        | listed hw' hp' =>
          cases hw.symm.trans hw'
          exact ⟨_, _, rfl⟩
      | improvised hw hp =>
        cases hb' with
        | improvised hw' hp' => exact ⟨_, _, rfl⟩
    · cases hb with
      | listed _ hp' => cases hp.symm.trans hp'
  · rintro ⟨⟨id, acts, rfl⟩, hknown, hacc⟩
    exact .schedule hb hknown hacc

/-- Beginning an action stops the worker exactly if it makes it send where there is no room. -/
theorem Begins.isBlocked_iff {a : JobAction} (hb : Begins s a m)
    (hw : s.queue.worker = .working job actions) : (s.begin job rest a).isBlocked = true ↔
      s.isBlocked = true ∨ Commits s m ∧ s.queue.hasRoom = false := by
  have hnot : s.isBlocked = false := by
    cases hb with
    | listed hw hp => simp [isBlocked, isSending, hw, hp]
    | improvised hw hp => simp [isBlocked, isSending, hw, hp]
  rw [isBlocked_begin hw, commits_iff_of_begins hb, hnot]
  simp [and_assoc]

/-- Where the worker is when it comes to send: in the middle of a call, or in front of an action. -/
theorem Commits.of_work (h : Commits s .work) :
    (∃ job actions call, s.queue.worker = .working job actions ∧ s.pending = some call) ∨
      ∃ job a rest, s.queue.worker = .working job (a :: rest) ∧ s.pending = none := by
  cases h with
  | terminate hw hp => exact .inl ⟨_, _, _, hw, hp⟩
  | schedule hb =>
    cases hb with
    | listed hw hp => exact .inr ⟨_, _, _, hw, hp⟩
  | flush hw hp => exact .inl ⟨_, _, _, hw, hp⟩

theorem isBlocked_resume {call : PendingCall} (hw : s.queue.worker = .working job actions)
    (hp : s.pending = some (call, rest)) :
    (s.resume job rest call).isBlocked = true ↔ s.isBlocked = true ∨
      s.queue.hasRoom = false ∧ ((call = .terminate ∧ s.inside = [] ∧ s.queue.accepting = true) ∨
        (call = .flush ∧ s.isKnown = true)) := by
  cases call with
  | schedule id acts =>
    simp only [resume]
    split
    · next hroom => simp [isBlocked, isSending_act, hroom]
    · simp
  | flush =>
    simp only [resume]
    split
    · next hknown => simp [isBlocked, isSending, hw, hp, hknown]
    · next hknown =>
      have hnot : (s.act job rest .flush).isSending = false := isSending_act (by simp)
      rw [isBlocked, hnot]
      simp [isBlocked, isSending, hw, hp, hknown]
  | bar =>
    simp only [resume]
    split
    · next hroom => simp [isBlocked, isSending, WorkQueue.push, hw, hroom]
    · simp
  | await => simp [resume]
  | terminate =>
    simp only [resume]
    split
    · next hclear =>
      rw [isBlocked_act_terminate hw]
      simp [isBlocked, isSending, hw, hp, List.isEmpty_iff.mp hclear, and_comm]
    · next hclear => simp_all [isBlocked, isSending]

/-- A worker that is not about to do anything for a job does not come to wait for room. -/
theorem isBlocked_work_between (hp : s.pending = none)
    (hw : ∀ job a rest, s.queue.worker ≠ .working job (a :: rest)) :
    Traffic.isBlocked { s with queue := s.queue.work } = s.isBlocked := by
  unfold WorkQueue.work
  split
  · rfl
  · rfl
  · rfl
  · next hidle =>
    split <;> simp [isBlocked, isSending, hp, hidle]
  · next hdone => simp [isBlocked, isSending, hp, hdone]
  · next hworking => exact absurd hworking (hw _ _ _)
  · next hstopping =>
    split
    · next hroom => simp [isBlocked, isSending, hp, hroom]
    · rfl

/-- The worker comes to wait for room by a step of its own exactly if it comes to send and there is
none. -/
theorem isBlocked_work_iff : s.work.isBlocked = true ↔ s.isBlocked = true ∨
    Commits s .work ∧ s.queue.hasRoom = false := by
  unfold work
  split
  · next hw hp =>
    rw [isBlocked_resume hw hp, commits_iff_of_pending hw hp]
    simp [and_comm]
  · next hw hp => exact (Begins.listed hw hp).isBlocked_iff hw
  · next hp hw =>
    have hnone : ¬Commits s .work := by
      intro hcommits
      rcases hcommits.of_work with ⟨job, actions, call, -, hp'⟩ | ⟨job, a, rest, hw', -⟩
      · cases hp.symm.trans hp'
      · exact hw _ _ _ hw'
    rw [isBlocked_work_between hp hw]
    simp [hnone]
  · next hp hw =>
    have hnone : ¬Commits s .work := by
      intro hcommits
      rcases hcommits.of_work with ⟨job, actions, ⟨call, rest⟩, hw', hp'⟩ | ⟨-, -, -, -, hp'⟩
      · cases hp.symm.trans hp'
        exact hw _ _ _ _ hw' rfl
      · cases hp.symm.trans hp'
    simp [hnone]

theorem isBlocked_improvise_iff {a : JobAction} : (s.improvise a).isBlocked = true ↔
    s.isBlocked = true ∨ Commits s (.improvise a) ∧ s.queue.hasRoom = false := by
  unfold improvise
  split
  · next hw hp => exact (Begins.improvised hw hp).isBlocked_iff hw
  · next hnot =>
    have hnone : ¬Commits s (.improvise a) := by
      rintro (_ | ⟨_ | ⟨hw, hp⟩, -, -⟩ | _)
      exact hnot _ _ hw hp
    simp [hnone]

theorem Commits.of_worker (h : Commits s m) : m = .work ∨ ∃ a, m = .improvise a := by
  cases h with
  | terminate => exact .inl rfl
  | schedule hb =>
    cases hb with
    | listed => exact .inl rfl
    | improvised => exact .inr ⟨_, rfl⟩
  | flush => exact .inl rfl

/-- **One step.**  The worker waits for room in its own channel after it if it did before, or if
this is the step that brings it about. -/
theorem isBlocked_move_iff : (s.move m).isBlocked = true ↔ s.isBlocked = true ∨ Traps s m := by
  constructor
  · intro h
    by_cases hwork : m = .work
    · subst hwork
      exact (isBlocked_work_iff.mp h).imp_right fun hcommits => .full hcommits.1 hcommits.2
    · by_cases himprovise : ∃ a, m = .improvise a
      · obtain ⟨a, rfl⟩ := himprovise
        exact (isBlocked_improvise_iff.mp h).imp_right fun hcommits => .full hcommits.1 hcommits.2
      · obtain ⟨hsending, hfull⟩ := isBlocked_iff.mp h
        rw [isSending_move hwork (not_exists.mp himprovise)] at hsending
        by_cases hroom : s.queue.hasRoom = true
        · exact .inr (.filled hsending hroom hwork hfull)
        · exact .inl (isBlocked_iff.mpr ⟨hsending, Bool.eq_false_iff.mpr hroom⟩)
  · rintro (h | htraps)
    · exact (still_move h m).isBlocked.trans h
    · cases htraps with
      | full hcommits hfull =>
        rcases hcommits.of_worker with rfl | ⟨a, rfl⟩
        · exact isBlocked_work_iff.mpr (.inr ⟨hcommits, hfull⟩)
        · exact isBlocked_improvise_iff.mpr (.inr ⟨hcommits, hfull⟩)
      | filled hsending hroom hwork hfull =>
        refine isBlocked_iff.mpr ⟨?_, hfull⟩
        by_cases himprovise : ∃ a, m = .improvise a
        · obtain ⟨a, rfl⟩ := himprovise
          rwa [move, improvise_of_isSending hsending a]
        · rwa [isSending_move hwork (not_exists.mp himprovise)]

/-! ### Runs -/

theorem run_append (s : Traffic) (before after : List TrafficMove) :
    s.run (before ++ after) = (s.run before).run after := List.foldl_append

/-- The worker waits for room at the end of a run exactly if some step of the run brought that
about. -/
theorem isBlocked_run_iff (hs : s.isBlocked = false) (moves : List TrafficMove) :
    (s.run moves).isBlocked = true ↔
      ∃ before m after, moves = before ++ m :: after ∧ Traps (s.run before) m := by
  induction moves generalizing s with
  | nil => simp [run, hs]
  | cons m moves ih =>
    by_cases hm : (s.move m).isBlocked = true
    · -- The first step is the one.
      have hblocked : (s.run (m :: moves)).isBlocked = true :=
        (still_run hm moves).isBlocked.trans hm
      have htraps : Traps s m := (isBlocked_move_iff.mp hm).resolve_left (by simp [hs])
      exact iff_of_true hblocked ⟨[], m, moves, rfl, htraps⟩
    · refine (ih (Bool.eq_false_iff.mpr hm)).trans ⟨?_, ?_⟩
      · rintro ⟨before, m', after, rfl, htraps⟩
        exact ⟨m :: before, m', after, rfl, htraps⟩
      · rintro ⟨_ | ⟨b, before⟩, m', after, heq, htraps⟩
        · cases heq
          exact absurd (isBlocked_move_iff.mpr (.inr htraps)) hm
        · cases heq
          exact ⟨before, m', after, rfl, htraps⟩

/-- Where there is always room, nobody waits for any. -/
theorem isBlocked_of_unbounded (hcap : s.queue.capacity = none) : s.isBlocked = false := by
  simp [isBlocked, WorkQueue.hasRoom, hcap]

/-! ### A bounded queue can always be brought to a standstill -/

/-- The worker is about to do some actions of a job in a queue of some capacity that it is known
to, and nobody is in the middle of a call. -/
structure Poised (s : Traffic) (n : Nat) (job : Job) (rest : List JobAction) : Prop where
  capacity : s.queue.capacity = some n
  accepting : s.queue.accepting = true
  worker : s.queue.worker = .working job rest
  inside : s.inside = []
  pending : s.pending = none

namespace Poised

variable {n k : Nat}

theorem hasRoom (h : s.Poised n job rest) :
    s.queue.hasRoom = decide (s.queue.channel.length < n) := by
  cases n with
  | zero => simp [WorkQueue.hasRoom, WorkQueue.isIdle, h.capacity, h.worker]
  | succ n => simp [WorkQueue.hasRoom, h.capacity]

theorem hasFailed (h : s.Poised n job rest) : s.queue.hasFailed = false := by
  rw [WorkQueue.hasFailed, h.worker]

/-- Producers fill up the channel. -/
theorem fill (h : s.Poised n job rest) (hlen : s.queue.channel.length + k = n) :
    ∃ moves, (s.run moves).Poised n job rest ∧ (s.run moves).queue.channel.length = n := by
  induction k generalizing s with
  | zero => exact ⟨[], h, hlen⟩
  | succ k ih =>
    have hroom : s.queue.hasRoom = true := by
      rw [h.hasRoom, decide_eq_true_eq]
      omega
    have hsent : s.run [.enter ⟨0, []⟩, .send 0] = { s with
        queue := (s.queue.push (.run ⟨0, []⟩)).record (.produced ⟨0, []⟩ true), inside := [] } := by
      simp [run, move, send, WorkQueue.produce, h.accepting, h.hasFailed, hroom, h.inside]
    have hnext : (s.run [.enter ⟨0, []⟩, .send 0]).Poised n job rest := by
      rw [hsent]
      exact ⟨h.capacity, h.accepting, h.worker, rfl, h.pending⟩
    have hgrown : (s.run [.enter ⟨0, []⟩, .send 0]).queue.channel.length + k = n := by
      rw [hsent]
      simp only [WorkQueue.push, WorkQueue.record, List.length_append, List.length_singleton]
      omega
    obtain ⟨moves, hmoves, hfull⟩ := ih hnext hgrown
    rw [← run_append] at hmoves hfull
    exact ⟨_, hmoves, hfull⟩

/-- A job that terminates the queue then does not come to an end. -/
theorem isBlocked_terminate (h : s.Poised n job (.terminate :: rest))
    (hlen : s.queue.channel.length = n) : (s.run [.work, .work]).isBlocked = true := by
  have hbegun : s.move .work = { s with pending := some (.terminate, rest) } := by
    simp [move, work, begin, h.worker, h.pending]
  have hfull : s.queue.hasRoom = false := by simp [h.hasRoom, hlen]
  have hcommits : Commits { s with pending := some (.terminate, rest) } .work :=
    .terminate h.worker rfl h.inside h.accepting
  show ((s.move .work).move .work).isBlocked = true
  rw [hbegun]
  exact isBlocked_work_iff.mpr (.inr ⟨hcommits, hfull⟩)

end Poised

/-- Every bounded queue comes to a standstill if its channel is filled while it runs a job that
terminates it. -/
theorem exists_isBlocked (name : String) (n : Nat) :
    ∃ moves, ((opened name (some n)).run moves).isBlocked = true := by
  let first : List TrafficMove :=
    [.spawn, .enroll, .enter ⟨0, [.terminate]⟩, .send 0, .work]
  have hpoised : ((opened name (some n)).run first).Poised n ⟨0, [.terminate]⟩ [.terminate] := by
    cases n <;> exact ⟨rfl, rfl, rfl, rfl, rfl⟩
  have hempty : ((opened name (some n)).run first).queue.channel = [] := by
    cases n <;> rfl
  have hlen : ((opened name (some n)).run first).queue.channel.length + n = n := by
    rw [hempty, List.length_nil, Nat.zero_add]
  obtain ⟨moves, hmoves, hfull⟩ := hpoised.fill hlen
  have hblocked := hmoves.isBlocked_terminate hfull
  rw [← run_append, ← run_append] at hblocked
  exact ⟨_, hblocked⟩

/-- **Whether and when the worker waits for room in its own channel.**

* It never does exactly if the channel is unbounded.
* It does so at the end of a run exactly if some step of the run is one that brings it about: it
  comes to send something itself while there is no room, or others take the room before it does.
  What it sends is the stop, of a job that terminates the queue; a job or a barrier it sends only as
  long as the queue has not got its handle.
* Then nothing that happens lets it go on. -/
theorem worker_waits_iff (name : String) (capacity : Option Nat) :
    ((∀ moves, ((opened name capacity).run moves).isBlocked = false) ↔ capacity = none) ∧
    ∀ moves, (((opened name capacity).run moves).isBlocked = true ↔
        ∃ before m after, moves = before ++ m :: after ∧
          Traps ((opened name capacity).run before) m) ∧
      (((opened name capacity).run moves).isBlocked = true → ∀ more,
        Still ((opened name capacity).run moves) ((opened name capacity).run (moves ++ more))) := by
  refine ⟨⟨fun h => ?_, ?_⟩, fun moves => ⟨isBlocked_run_iff rfl moves, fun h more => ?_⟩⟩
  · cases capacity with
    | none => rfl
    | some n =>
      obtain ⟨moves, hmoves⟩ := exists_isBlocked name n
      rw [h moves] at hmoves
      cases hmoves
  · rintro rfl moves
    exact isBlocked_of_unbounded ((opened name none).follows_run moves).capacity
  · rw [run_append]
    exact still_run h more

/-- A job in a channel for one schedules another job and terminates the queue. -/
theorem worker_waits_terminating :
    ((opened "q" (some 1)).run
      [.spawn, .enroll, .enter ⟨0, [.schedule 1 [], .terminate]⟩, .send 0, .work, .work, .work,
        .work]).isBlocked = true := by
  decide

/-- In a channel for one, the worker runs a job before the queue has its handle, and the second job
that this one schedules finds no room.  That the handle comes then, and that the queue is to be
closed, does not help. -/
theorem worker_waits_iff_early :
    let moves : List TrafficMove :=
      [.enter ⟨0, [.schedule 1 [], .schedule 2 []]⟩, .send 0, .spawn, .work, .work, .work, .work]
    let q := opened "q" (some 1)
    (q.run moves).isBlocked = true ∧
      (∃ before m after, moves = before ++ m :: after ∧ Traps (q.run before) m) ∧
      Still (q.run moves) (q.run (moves ++ [.enroll, .work, .close])) := by
  intro moves q
  have hblocked : (q.run moves).isBlocked = true := by decide
  obtain ⟨hiff, hstill⟩ := (worker_waits_iff "q" (some 1)).2 moves
  exact ⟨hblocked, hiff.mp hblocked, hstill hblocked _⟩

end Traffic
end Provisioning
