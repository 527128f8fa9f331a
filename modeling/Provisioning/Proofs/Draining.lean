import Provisioning.Proofs.Boards
import Provisioning.Proofs.Resubmission

/-! # The end of a session

A session that is shut down has its waiting tasks run and then its waiting notices sent, those of
the tasks among them, by ordinary steps of the two workers.  So the histories of a run, of the tasks
that were accepted and run and of the notices that were put up and sent, are told of ordinary steps
only, and the end is one more run of such steps (`shutdown_eq`).  What is accepted is run in
order, what is announced is sent in order, and when nothing waits nothing is left out.

Afterwards both lines are closed and empty and nothing is cached, and so it stays.
-/
namespace Provisioning

/-- A notice that is sent, with those who are to be told and the directory at that time. -/
structure Round where
  notice : Notice
  listeners : List Service
  directory : Directory

/-- Who is told: those whose providers are active. -/
def Round.told (r : Round) : List Notification :=
  (r.listeners.filter fun l => r.directory.stateOf l = .active).map fun l => ⟨l, r.notice⟩

theorem WorkLine.close_of_empty {α : Type} {l : WorkLine α} (h : l.waiting = []) :
    l.close = ⟨[], false⟩ := by
  rw [WorkLine.close, h]

theorem WorkLine.pop_of_empty {α : Type} {l : WorkLine α} (h : l.waiting = []) : l.pop = l := by
  obtain ⟨waiting, accepting⟩ := l
  obtain rfl : waiting = [] := h
  rfl

namespace Session

variable (s : Session)

/-! ### Histories -/

/-- What is told of each action of a run in the state that it happens to, in order. -/
def history {α : Type} (f : Session → Action → List α) (s : Session) : List Action → List α
  | [] => []
  | a :: rest => f s a ++ history f (s.step a).2 rest

/-- The tasks that an action adds to the line. -/
def accepted (a : Action) : List Task :=
  (s.step a).2.updates.waiting.drop s.updates.waiting.length

/-- The task that an action runs. -/
def ran : Action → List Task
  | .runUpdate => s.updates.waiting.take 1
  | _ => []

/-- The notices that an action announces, with those who are to be told: what it adds to a line
that is open. -/
def announced (a : Action) : List (Notice × List Service) :=
  (({ s with notices := { s.notices with accepting := true } } : Session).step a
    ).2.notices.waiting.drop s.notices.waiting.length

/-- The notice that an action sends. -/
def sent : Action → List Round
  | .runNotice => (s.notices.waiting.take 1).map fun e => ⟨e.1, e.2, s.directory⟩
  | _ => []

variable {s}

theorem history_append {α : Type} (f : Session → Action → List α) (s : Session)
    (before after : List Action) :
    s.history f (before ++ after) = s.history f before ++ (s.run before).history f after := by
  induction before generalizing s with
  | nil => rfl
  | cons a rest ih => rw [List.cons_append, history, ih, history, List.append_assoc]; rfl

theorem history_congr {α : Type} {f g : Session → Action → List α} {actions : List Action}
    (h : ∀ s, ∀ a ∈ actions, f s a = g s a) (s : Session) :
    s.history f actions = s.history g actions := by
  induction actions generalizing s with
  | nil => rfl
  | cons a rest ih =>
    rw [history, history, h s a List.mem_cons_self,
      ih fun s b hb => h s b (List.mem_cons_of_mem a hb)]

/-! ### Tasks -/

/-- What is run was accepted first, and what was not run still waits. -/
theorem tasks_step (s : Session) {a : Action} (hend : a ≠ .shutdown) :
    s.ran a ++ (s.step a).2.updates.waiting = s.updates.waiting ++ s.accepted a := by
  by_cases hrun : a = .runUpdate
  · subst hrun
    have htail : (s.step .runUpdate).2.updates.waiting = s.updates.waiting.tail :=
      s.runUpdate_waiting.1
    rw [accepted, htail, ran]
    cases s.updates.waiting <;> simp
  · obtain ⟨new, hnew, -⟩ := s.step_appends hrun hend
    have hran : s.ran a = [] := by
      cases a with
      | runUpdate => exact absurd rfl hrun
      | _ => rfl
    rw [accepted, hran, hnew, List.drop_left]
    rfl

theorem tasks_run (s : Session) {actions : List Action} (hend : .shutdown ∉ actions) :
    s.history ran actions ++ (s.run actions).updates.waiting =
      s.updates.waiting ++ s.history accepted actions := by
  induction actions generalizing s with
  | nil => simp [history, run]
  | cons a rest ih =>
    have hone := s.tasks_step (a := a) fun he => hend (he ▸ List.mem_cons_self)
    have hrest := ih (s.step a).2 fun hm => hend (List.mem_cons_of_mem a hm)
    rw [history, history, run, List.append_assoc, hrest, ← List.append_assoc, hone,
      List.append_assoc]

/-! ### Notices -/

/-- A notice that is sent is told to those whose providers are active, and nothing else changes on
the board. -/
theorem board_tell (s : Session) (n : Notice) (l : Service) : (s.tell n l).board =
    { s.board with notifications := s.notifications ++
      if s.directory.stateOf l = .active then [⟨l, n⟩] else [] } := by
  unfold tell
  split
  · rw [board_countResult]
    rfl
  · rw [List.append_nil]
    rfl

theorem directory_tell (s : Session) (n : Notice) (l : Service) :
    (s.tell n l).directory = s.directory := congrArg View.directory (s.view_tell n l)

theorem board_tellAll (n : Notice) (listeners : List Service) (s : Session) :
    (listeners.foldl (fun s l => s.tell n l) s).board =
      { s.board with
        notifications := s.notifications ++ Round.told ⟨n, listeners, s.directory⟩ } := by
  induction listeners generalizing s with
  | nil => simp [Round.told, board]
  | cons l rest ih =>
    rw [List.foldl_cons, ih, directory_tell]
    have hone := s.board_tell n l
    have hnotifications : (s.tell n l).notifications = _ := congrArg Board.notifications hone
    have hnotices : (s.tell n l).notices = s.notices := congrArg Board.notices hone
    have hlisteners : (s.tell n l).listeners = s.listeners := congrArg Board.listeners hone
    unfold Round.told
    dsimp only [board]
    rw [hnotifications, hnotices, hlisteners]
    by_cases hl : s.directory.stateOf l = .active <;> simp [hl]

theorem board_runNotice (s : Session) : s.runNotice.board =
    { s.board with
      notices := s.notices.pop
      notifications := s.notifications ++ (s.sent .runNotice).flatMap Round.told } := by
  unfold runNotice sent
  split
  · next hw => simp [board, WorkLine.pop_of_empty hw, hw]
  · next n listeners rest hw =>
    dsimp only
    rw [board_tellAll, hw]
    simp [board]

/-- The notices of some rounds, with those who were to be told. -/
def posts (rounds : List Round) : List (Notice × List Service) :=
  rounds.map fun r => (r.notice, r.listeners)

/-- An action that sends nothing adds to an open line what it announces. -/
theorem notices_of_board {s s' : Session} {news : List Notice} (hopen : s.notices.accepting = true)
    (hb : s'.board = s.board.postAll news) :
    s'.notices.accepting = true ∧ s'.notifications = s.notifications ∧
      ∃ new, s'.notices.waiting = s.notices.waiting ++ new ∧ ∀ e ∈ new, e.2 = s.listeners := by
  rw [Board.postAll_eq] at hb
  have hnotices : s'.notices = _ := congrArg Board.notices hb
  refine ⟨?_, congrArg Board.notifications hb, _, congrArg WorkLine.waiting hnotices,
    fun e he => ?_⟩
  · rw [hnotices]
    exact hopen
  · split at he
    · obtain ⟨n, -, rfl⟩ := List.mem_map.mp he
      rfl
    · exact absurd he List.not_mem_nil

theorem announced_of_accepting (s : Session) (hopen : s.notices.accepting = true) (a : Action) :
    s.announced a = (s.step a).2.notices.waiting.drop s.notices.waiting.length := by
  have hself : ({ s with notices := { s.notices with accepting := true } } : Session) = s := by
    rw [← hopen]
  unfold announced
  rw [hself]

/-- What one action does to the notices, as long as they are accepted: what is sent was announced
first, to the listeners of that moment, and what was not sent still waits. -/
theorem notices_step (s : Session) {a : Action} (hend : a ≠ .shutdown)
    (hopen : s.notices.accepting = true) :
    (s.step a).2.notices.accepting = true ∧
      posts (s.sent a) ++ (s.step a).2.notices.waiting = s.notices.waiting ++ s.announced a ∧
      (∀ e ∈ s.announced a, e.2 = s.listeners) ∧
      (s.step a).2.notifications = s.notifications ++ (s.sent a).flatMap Round.told := by
  have hannounced := s.announced_of_accepting hopen a
  by_cases hsend : a = .runNotice
  · subst hsend
    have hboard : (s.step .runNotice).2.board = _ := s.board_runNotice
    have hnotices : (s.step .runNotice).2.notices = s.notices.pop := congrArg Board.notices hboard
    have hnothing : s.announced .runNotice = [] := by
      rw [hannounced, hnotices]
      exact List.drop_eq_nil_of_le (by simp [WorkLine.pop])
    refine ⟨hnotices ▸ hopen, ?_, fun e he => ?_, congrArg Board.notifications hboard⟩
    · rw [hnothing, hnotices, posts, sent, WorkLine.pop]
      cases s.notices.waiting <;> simp
    · rw [hnothing] at he
      exact absurd he List.not_mem_nil
  have hsent : s.sent a = [] := by
    cases a with
    | runNotice => exact absurd rfl hsend
    | _ => rfl
  -- whatever else happens adds to the line, or leaves it alone
  have hadds : ∃ new, (s.step a).2.notices.accepting = true ∧
      (s.step a).2.notifications = s.notifications ∧
      (s.step a).2.notices.waiting = s.notices.waiting ++ new ∧ ∀ e ∈ new, e.2 = s.listeners := by
    have hsame : ∀ s' : Session, s'.notices = s.notices → s'.notifications = s.notifications →
        ∃ new, s'.notices.accepting = true ∧ s'.notifications = s.notifications ∧
          s'.notices.waiting = s.notices.waiting ++ new ∧ ∀ e ∈ new, e.2 = s.listeners :=
      fun s' hn ht => ⟨[], hn ▸ hopen, ht, by rw [hn, List.append_nil],
        fun e he => absurd he List.not_mem_nil⟩
    by_cases hlistener : (∃ l, a = .listenerRegistered l) ∨
        ∃ service, a = .listenerWithdrawn service
    · rcases hlistener with ⟨l, rfl⟩ | ⟨service, rfl⟩
      · refine hsame (s.listenerRegistered l) ?_ ?_
        all_goals
          unfold listenerRegistered
          split <;> rfl
      · exact hsame _ rfl rfl
    · rw [not_or, not_exists, not_exists] at hlistener
      obtain ⟨news, hb⟩ := s.step_board hlistener.1 hlistener.2 hsend hend
      obtain ⟨ha, ht, new, hn, hl⟩ := notices_of_board hopen hb
      exact ⟨new, ha, ht, hn, hl⟩
  obtain ⟨new, ha, ht, hn, hl⟩ := hadds
  have hnew : s.announced a = new := by rw [hannounced, hn, List.drop_left]
  rw [hsent, hnew, hn, ht]
  exact ⟨ha, rfl, hl, (List.append_nil _).symm⟩

/-- Of a whole run. -/
theorem notices_run (s : Session) {actions : List Action} (hend : .shutdown ∉ actions)
    (hopen : s.notices.accepting = true) :
    (s.run actions).notices.accepting = true ∧
      posts (s.history sent actions) ++ (s.run actions).notices.waiting =
        s.notices.waiting ++ s.history announced actions ∧
      (s.run actions).notifications =
        s.notifications ++ (s.history sent actions).flatMap Round.told := by
  induction actions generalizing s with
  | nil => exact ⟨hopen, by simp [history, posts, run], by simp [history, run]⟩
  | cons a rest ih =>
    obtain ⟨ha, hone, -, htold⟩ :=
      s.notices_step (a := a) (fun he => hend (he ▸ List.mem_cons_self)) hopen
    obtain ⟨hrest, hall, htolds⟩ :=
      ih (s.step a).2 (fun hm => hend (List.mem_cons_of_mem a hm)) ha
    refine ⟨hrest, ?_, ?_⟩
    · rw [history, history, run, posts, List.map_append, List.append_assoc]
      show posts (s.sent a) ++ (posts _ ++ _) = _
      rw [hall, ← List.append_assoc, hone, List.append_assoc]
    · rw [history, run, htolds, htold, List.flatMap_append, List.append_assoc]

/-! ### The end as a run -/

/-- The session with its line of tasks closed. -/
def closeUpdates (s : Session) : Session := s.withLine s.updates.close 0

/-- The session with another line of notices. -/
def withNotices (s : Session) (line : WorkLine (Notice × List Service)) : Session :=
  { s with notices := line }

/-- A worker does not look at whether its line is closed. -/
theorem runUpdate_close (s : Session) : s.closeUpdates.runUpdate = s.runUpdate.closeUpdates := by
  unfold closeUpdates
  cases hw : s.view.waiting with
  | nil =>
    rw [s.runUpdate_idle hw]
    exact runUpdate_idle (s.withLine s.updates.close 0) hw
  | cons t rest =>
    obtain ⟨s₀, hs₀⟩ : ∃ s₀ : Session, s₀ = { s with updates := s.updates.pop } := ⟨_, rfl⟩
    have hsame : (s₀.withLine s.updates.pop.close 0).perform t =
        (s₀.perform t).withLine s.updates.pop.close 0 :=
      (resemblance_withLine s.updates.pop.close 0).perform rfl t
    rw [s.runUpdate_busy hw, ← hs₀, updates_perform]
    subst hs₀
    exact (runUpdate_busy (s.withLine s.updates.close 0) hw).trans hsame

theorem runUpdates_close (n : Nat) (s : Session) :
    runUpdates n s.closeUpdates = (runUpdates n s).closeUpdates := by
  induction n generalizing s with
  | zero => rfl
  | succ n ih => rw [runUpdates, runUpdate_close, ih, runUpdates]

theorem tellAll_withNotices (n : Notice) (listeners : List Service) (s : Session)
    (line : WorkLine (Notice × List Service)) :
    listeners.foldl (fun s l => s.tell n l) (s.withNotices line) =
      (listeners.foldl (fun s l => s.tell n l) s).withNotices line := by
  induction listeners generalizing s with
  | nil => rfl
  | cons l rest ih =>
    have hone : (s.withNotices line).tell n l = (s.tell n l).withNotices line := by
      unfold tell withNotices
      dsimp only
      split
      · cases (s.directory.replies l (.noticed n)).result <;> rfl
      · rfl
    rw [List.foldl_cons, hone, ih, List.foldl_cons]

theorem runNotice_close (s : Session) :
    (s.withNotices s.notices.close).runNotice =
      s.runNotice.withNotices s.runNotice.notices.close := by
  have hboard : s.runNotice.notices = s.notices.pop := congrArg Board.notices s.board_runNotice
  rw [hboard]
  cases hw : s.notices.waiting with
  | nil =>
    have hidle : ∀ s : Session, s.notices.waiting = [] → s.runNotice = s := by
      intro s hw
      rw [runNotice, hw]
    rw [hidle s hw, hidle (s.withNotices s.notices.close) hw, WorkLine.pop_of_empty hw]
  | cons e rest =>
    have hbusy : ∀ s : Session, s.notices.waiting = e :: rest → s.runNotice =
        (e.2.foldl (fun s l => s.tell e.1 l) s).withNotices s.notices.pop := by
      intro s hw
      rw [runNotice, hw]
      exact tellAll_withNotices e.1 e.2 s s.notices.pop
    rw [hbusy s hw, hbusy (s.withNotices s.notices.close) hw, tellAll_withNotices]
    rfl

theorem runNotices_close (n : Nat) (s : Session) :
    runNotices n (s.withNotices s.notices.close) =
      (runNotices n s).withNotices (runNotices n s).notices.close := by
  induction n generalizing s with
  | zero => rfl
  | succ n ih => rw [runNotices, runNotice_close, ih, runNotices]

theorem runNotices_closeUpdates (n : Nat) (s : Session) :
    runNotices n s.closeUpdates = (runNotices n s).closeUpdates := by
  unfold closeUpdates
  rw [updates_runNotices]
  exact (resemblance_withLine s.updates.close 0).runNotices rfl n

/-- The steps of both workers until nothing waits. -/
def lastSteps (s : Session) : List Action :=
  List.replicate s.updates.waiting.length .runUpdate ++
    List.replicate s.drainUpdates.notices.waiting.length .runNotice

theorem run_runUpdates (n : Nat) (s : Session) :
    s.run (List.replicate n .runUpdate) = runUpdates n s := by
  induction n generalizing s with
  | zero => rfl
  | succ n ih => exact ih s.runUpdate

theorem run_runNotices (n : Nat) (s : Session) :
    s.run (List.replicate n .runNotice) = runNotices n s := by
  induction n generalizing s with
  | zero => rfl
  | succ n ih => exact ih s.runNotice

theorem run_lastSteps (s : Session) : s.run s.lastSteps = s.drain := by
  rw [lastSteps, run_append, run_runUpdates, run_runNotices]
  rfl

theorem notices_runNotices (n : Nat) (s : Session) :
    (runNotices n s).notices.waiting = s.notices.waiting.drop n := by
  induction n generalizing s with
  | zero => rfl
  | succ n ih =>
    have hboard : s.runNotice.notices = s.notices.pop := congrArg Board.notices s.board_runNotice
    rw [runNotices, ih, hboard, WorkLine.pop, List.drop_tail]

/-- When both workers have run, nothing waits. -/
theorem drain_waiting (s : Session) :
    s.drain.updates.waiting = [] ∧ s.drain.notices.waiting = [] := by
  refine ⟨?_, ?_⟩
  · have hupdates : s.drain.updates = s.drainUpdates.updates := updates_runNotices _ _
    rw [hupdates]
    exact s.drainUpdates_waiting
  · exact (notices_runNotices _ s.drainUpdates).trans List.drop_length

/-- **The end is a run.**  A session that is shut down lets both workers run until nothing waits;
then its lines are closed, and nothing is cached. -/
theorem shutdown_eq (s : Session) (hopen : s.updates.accepting = true) :
    s.shutdown = { s.run s.lastSteps with
      updates := ⟨[], false⟩
      notices := ⟨[], false⟩
      cache := {} } := by
  have hupdates : s.closeUpdates.drainUpdates = s.drainUpdates.closeUpdates :=
    runUpdates_close s.updates.waiting.length s
  -- the notice worker does not look at the line of tasks
  have hnotices : (s.drainUpdates.closeUpdates.withNotices
      s.drainUpdates.notices.close).drainNotices =
        (s.drain.withNotices s.drain.notices.close).closeUpdates := by
    have hclosed := runNotices_close s.drainUpdates.notices.waiting.length s.drainUpdates
    refine (runNotices_closeUpdates s.drainUpdates.notices.waiting.length
      (s.drainUpdates.withNotices s.drainUpdates.notices.close)).trans ?_
    rw [hclosed]
    rfl
  have hshutdown : s.shutdown = { (s.closeUpdates.drainUpdates.withNotices
      s.closeUpdates.drainUpdates.notices.close).drainNotices with cache := {} } := by
    unfold shutdown
    rw [if_neg (by simp [hopen])]
    rfl
  obtain ⟨hidle, hsent⟩ := s.drain_waiting
  have hrest : (s.drain.withNotices s.drain.notices.close).closeUpdates =
      { s.drain with updates := ⟨[], false⟩, notices := ⟨[], false⟩ } := by
    rw [WorkLine.close_of_empty hsent]
    show ({ s.drain with updates := s.drain.updates.close, notices := ⟨[], false⟩ } : Session) = _
    rw [WorkLine.close_of_empty hidle]
  rw [hshutdown, hupdates, run_lastSteps]
  have hlast : (s.drainUpdates.closeUpdates.withNotices
      s.drainUpdates.closeUpdates.notices.close).drainNotices = _ := hnotices.trans hrest
  rw [hlast]

/-! ### After the end -/

/-- A session that has ended: nothing waits, nothing is accepted, and nothing is cached. -/
structure Ended (s : Session) : Prop where
  updates : s.updates = ⟨[], false⟩
  notices : s.notices = ⟨[], false⟩
  cache : s.cache = {}

/-- Nobody is called or told any more. -/
structure Silent (s s' : Session) : Prop where
  calls : s'.calls = s.calls
  notifications : s'.notifications = s.notifications

/-- A session that has ended refuses every call. -/
theorem Ended.refuses (h : s.Ended) {a : Action} (ha : a.isAdministrative = true) :
    s.step a = (.refused .shutDown, s) := by
  have hstopped : s.isRunning = false := congrArg WorkLine.accepting h.updates
  cases a with
  | getOrCreate => simp [step, answering, Answer.ofResult, getOrCreate, hstopped]
  | getExisting => simp [step, answering, Answer.ofResult, getExisting, hstopped]
  | createMember => simp [step, answering, Answer.ofResult, createMember, hstopped]
  | members => simp [step, answering, Answer.ofResult, members, hstopped]
  | list => simp [step, answering, Answer.ofResult, list, hstopped]
  | update => simp [step, answering, Answer.ofResult, update, hstopped]
  | delete => simp [step, answering, Answer.ofResult, delete, hstopped]
  | setLocation => simp [step, answering, Answer.ofResult, setLocation, hstopped]
  | getLocation => simp [step, answering, Answer.ofResult, getLocation, hstopped]
  | consumerRegistered | consumerWithdrawn | listenerRegistered | listenerWithdrawn
  | locationUninstalled | submit | addPlugin | removePlugin | around | runUpdate | runNotice
  | shutdown => cases ha

theorem Ended.rejects (h : s.Ended) (t : Task) : s.step (.submit t) = (.accepted false, s) := by
  have hline : s.updates.push t = s.updates := by
    rw [h.updates]
    rfl
  have hstopped : s.isRunning = false := congrArg WorkLine.accepting h.updates
  have hsame : s.schedule t = s := by
    rw [schedule, hline]
  rw [step, submit, hstopped, hsame]

theorem Ended.shutdown (h : s.Ended) : s.shutdown = s := by
  unfold Session.shutdown
  rw [h.updates, h.notices]
  rfl

/-- Whatever happens to a session that has ended, it stays so; no record changes, and nobody is
called. -/
theorem Ended.step (h : s.Ended) (a : Action) :
    (s.step a).2.Ended ∧ s.Silent (s.step a).2 ∧ (s.step a).2.records = s.records := by
  have hsame : ∀ s' : Session, s' = s → s'.Ended ∧ s.Silent s' ∧ s'.records = s.records := by
    rintro _ rfl
    exact ⟨h, ⟨rfl, rfl⟩, rfl⟩
  have hrest : ∀ s' : Session, s'.updates = s.updates → s'.notices = s.notices →
      s'.cache = s.cache → s'.calls = s.calls → s'.notifications = s.notifications →
        s'.records = s.records → s'.Ended ∧ s.Silent s' ∧ s'.records = s.records :=
    fun s' hu hn hc hk ht hr =>
      ⟨⟨hu.trans h.updates, hn.trans h.notices, hc.trans h.cache⟩, ⟨hk, ht⟩, hr⟩
  have hstopped : s.isRunning = false := congrArg WorkLine.accepting h.updates
  by_cases ha : a.isAdministrative = true
  · exact hsame _ (by rw [h.refuses ha])
  cases a with
  | submit t => exact hsame _ (by rw [h.rejects t])
  | shutdown => exact hsame _ h.shutdown
  | runUpdate => exact hsame _ (s.runUpdate_idle (congrArg WorkLine.waiting h.updates))
  | runNotice =>
    refine hsame _ ?_
    show s.runNotice = s
    rw [runNotice, h.notices]
  | consumerRegistered c =>
    refine hsame _ ?_
    show s.consumerRegistered c = s
    rw [consumerRegistered, if_neg (by simp [hstopped])]
  | consumerWithdrawn service =>
    refine hsame _ ?_
    show s.consumerWithdrawn service = s
    rw [consumerWithdrawn, h.cache]
    rfl
  | locationUninstalled location =>
    have hsameStored : ∀ (pids : List String) (s : Session), ∃ bindings storage,
        pids.foldl (fun s pid => s.assignBinding pid none) s =
          { s with bindings, toWorld := { s.toWorld with storage } } := by
      intro pids
      induction pids with
      | nil => exact fun s => ⟨s.bindings, s.storage, rfl⟩
      | cons pid rest ih => exact fun s => ih (s.assignBinding pid none)
    obtain ⟨bindings, storage, he⟩ := hsameStored (s.bindings.boundTo location) s
    show (s.locationUninstalled location).Ended ∧ s.Silent (s.locationUninstalled location) ∧
      (s.locationUninstalled location).records = s.records
    unfold locationUninstalled
    dsimp only
    rw [he, h.cache]
    exact hrest _ rfl rfl h.cache.symm rfl rfl rfl
  | listenerRegistered l =>
    show (s.listenerRegistered l).Ended ∧ s.Silent (s.listenerRegistered l) ∧
      (s.listenerRegistered l).records = s.records
    unfold listenerRegistered
    split
    · exact hsame s rfl
    · exact hrest _ rfl rfl rfl rfl rfl rfl
  | listenerWithdrawn | addPlugin | removePlugin => exact hrest _ rfl rfl rfl rfl rfl rfl
  | around action =>
    cases action with
    | withdraw id | behave id =>
      simp only [Session.step, World.step]
      split <;> exact hrest _ rfl rfl rfl rfl rfl rfl
    | install | setState | uninstall | addConsumer | addListener | backend =>
      exact hrest _ rfl rfl rfl rfl rfl rfl
  | _ => exact absurd rfl ha

theorem Ended.run (h : s.Ended) (actions : List Action) :
    (s.run actions).Ended ∧ s.Silent (s.run actions) := by
  induction actions generalizing s with
  | nil => exact ⟨h, rfl, rfl⟩
  | cons a rest ih =>
    obtain ⟨hone, hsilent, -⟩ := h.step a
    obtain ⟨hall, hsilent'⟩ := ih hone
    exact ⟨hall, hsilent'.calls.trans hsilent.calls,
      hsilent'.notifications.trans hsilent.notifications⟩

theorem Ended.records_run (h : s.Ended) (actions : List Action) :
    (s.run actions).records = s.records := by
  induction actions generalizing s with
  | nil => rfl
  | cons a rest ih =>
    obtain ⟨hone, -, hrecords⟩ := h.step a
    exact (ih hone).trans hrecords

theorem shutdown_ended (hopen : s.updates.accepting = true) : s.shutdown.Ended := by
  rw [s.shutdown_eq hopen]
  exact ⟨rfl, rfl, rfl⟩

/-- The last steps of the workers accept no tasks. -/
theorem accepted_lastSteps (s s' : Session) : s'.history accepted s.lastSteps = [] := by
  have hwork : ∀ (n : Nat) (a : Action), (∀ s : Session, s.accepted a = []) → ∀ s : Session,
      s.history accepted (List.replicate n a) = [] := by
    intro n a ha
    induction n with
    | zero => exact fun _ => rfl
    | succ n ih =>
      intro s
      rw [List.replicate_succ, history, ha, ih]
      rfl
  rw [lastSteps, history_append, hwork _ _ fun s => ?_, hwork _ _ fun s => ?_]
  · rfl
  · have hline : (s.step .runNotice).2.updates = s.updates := s.updates_runNotice
    rw [accepted, hline, List.drop_length]
  · have htail : (s.step .runUpdate).2.updates.waiting = s.updates.waiting.tail :=
      s.runUpdate_waiting.1
    rw [accepted, htail]
    exact List.drop_eq_nil_of_le (by simp)

/-- **Shutting down drains everything, and then all is silent.**  Whatever waits when a session is
shut down, the end comes to steps of the two workers: with them, every task that was ever accepted
was run, in order; every notice that was ever announced was sent, in order, to those who listened
when it was announced; and listeners were told of the notices that were sent, as far as their
providers were active, and of nothing else.  Then the cache is empty, and whatever happens
afterwards: every call is refused, no task is accepted, the session cannot be shut down once more,
and nobody is called or told. -/
theorem shutdown_drains {w : World} {settings : Settings} (hs : start w settings = .ok s)
    {before : List Action} (hend : .shutdown ∉ before) :
    let work := before ++ (s.run before).lastSteps
    s.run (before ++ [.shutdown]) = { s.run work with
      updates := ⟨[], false⟩, notices := ⟨[], false⟩, cache := {} } ∧
    s.history ran work = s.history accepted before ∧
    posts (s.history sent work) = s.history announced work ∧
    (∀ past a, past ++ [a] <+: work →
      ∀ e ∈ (s.run past).announced a, e.2 = (s.run past).listeners) ∧
    (s.run work).notifications = s.notifications ++ (s.history sent work).flatMap Round.told ∧
    ∀ after, let s' := (s.run (before ++ [.shutdown])).run after
      s'.cache = {} ∧ s'.calls = (s.run work).calls ∧
      s'.notifications = (s.run work).notifications ∧
      (∀ a, a.isAdministrative = true → s'.step a = (.refused .shutDown, s')) ∧
      (∀ t, s'.step (.submit t) = (.accepted false, s')) ∧ s'.step .shutdown = (.done, s') := by
  obtain ⟨s₁, hs₁⟩ : ∃ s₁, s₁ = s.run before := ⟨_, rfl⟩
  obtain ⟨home, bindings, storage, -, -, hstart⟩ := start_eq hs
  have hopen : s.notices.accepting = true := by rw [hstart]
  have hidle : s.updates.waiting = [] ∧ s.notices.waiting = [] := by rw [hstart]; exact ⟨rfl, rfl⟩
  have haccepts : s₁.updates.accepting = true := by
    have hrun := run_accepting (start_filed hs) hend
    rw [start_view hs] at hrun
    exact hs₁ ▸ hrun
  dsimp only
  rw [← hs₁]
  have hwork : .shutdown ∉ before ++ s₁.lastSteps := by
    have hother : ∀ n (a : Action), a ≠ .shutdown → .shutdown ∉ List.replicate n a :=
      fun n a ha hm => ha (List.eq_of_mem_replicate hm).symm
    rw [List.mem_append, not_or, lastSteps, List.mem_append, not_or]
    exact ⟨hend, hother _ _ (by simp), hother _ _ (by simp)⟩
  have hdrained : s.run (before ++ s₁.lastSteps) = s₁.drain := by
    rw [run_append, ← hs₁, run_lastSteps]
  obtain ⟨hnone, hunsent⟩ := s₁.drain_waiting
  have htasks := s.tasks_run hwork
  obtain ⟨-, hnotices, htold⟩ := s.notices_run hwork hopen
  rw [hdrained, hnone, hidle.1, List.append_nil, List.nil_append, history_append accepted, ← hs₁,
    accepted_lastSteps, List.append_nil] at htasks
  rw [hdrained, hunsent, hidle.2, List.append_nil, List.nil_append] at hnotices
  have hstopped : s.run (before ++ [.shutdown]) = s₁.shutdown := by rw [run_concat, ← hs₁]; rfl
  refine ⟨?_, htasks, hnotices, ?_, htold, fun after => ?_⟩
  · rw [hstopped, hdrained, ← run_lastSteps]
    exact s₁.shutdown_eq haccepts
  · rintro past a ⟨rest, hpast⟩
    rw [← hpast, List.append_assoc, List.mem_append, not_or, List.singleton_append,
      List.mem_cons, not_or] at hwork
    obtain ⟨hbefore, ha, -⟩ := hwork
    obtain ⟨hstill, -⟩ := s.notices_run hbefore hopen
    exact ((s.run past).notices_step (Ne.symm ha) hstill).2.2.1
  · obtain ⟨hended, hsilent⟩ := (shutdown_ended haccepts).run after
    have hcalls : s₁.shutdown.calls = s₁.drain.calls := by
      rw [s₁.shutdown_eq haccepts, run_lastSteps]
    have hnotified : s₁.shutdown.notifications = s₁.drain.notifications := by
      rw [s₁.shutdown_eq haccepts, run_lastSteps]
    rw [hstopped, hdrained]
    refine ⟨hended.cache, hsilent.calls.trans hcalls, hsilent.notifications.trans hnotified,
      fun a ha => hended.refuses ha, hended.rejects, ?_⟩
    show (Answer.done, Session.shutdown _) = _
    rw [hended.shutdown]

/-- A task waits whose notice is not put up yet: the record is bound only when it is served. -/
def pending : List Action :=
  [.around (.addConsumer .single "here" ["pid"] 0), .around (.addListener "there"),
    .listenerRegistered { id := 2, location := "there", provider := 1 },
    .getOrCreate "pid" none, .update "pid" .empty]

theorem shutdown_drains_pending :
    ∃ s, start {} {} = .ok s ∧ (s.run pending).updates.waiting.length = 1 ∧
      (s.run pending).notices.waiting.length = 1 ∧
      s.history ran (pending ++ (s.run pending).lastSteps) = s.history accepted pending ∧
      (s.run (pending ++ [.shutdown])).notifications.map (fun n => n.notice.change) =
        [.updated, .relocated] ∧
      ((s.run (pending ++ [.shutdown])).run [.update "pid" .empty]).cache = {} := by
  obtain ⟨s, hs⟩ : ∃ s, start {} {} = .ok s := ⟨_, rfl⟩
  have hend : .shutdown ∉ pending := by simp [pending]
  obtain ⟨-, hran, -, -, -, hafter⟩ := shutdown_drains hs hend
  obtain ⟨hcache, -⟩ := hafter [.update "pid" .empty]
  refine ⟨s, hs, ?_, ?_, hran, ?_, hcache⟩
  all_goals
    cases hs
    decide +kernel

end Session
end Provisioning
