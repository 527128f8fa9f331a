import Provisioning.Proofs.Attachment
import Provisioning.Proofs.Bookkeeping
import Provisioning.Session.Step

/-! # What a step does

Everything that can happen to a session is one of a few things, as far as deliveries can see:
a call that looks things up and perhaps changes one record, a consumer that is greeted or
forgotten, a provider that gives its records free, a change of the directory, or a task that
runs.  `Deal` lists them and `step_deal` says that there is nothing else.
-/
namespace Provisioning

open Relation (ReflTransGen)

namespace Action

/-- The calls of an administrator. -/
def isAdministrative : Action → Bool
  | .getOrCreate .. | .getExisting .. | .createMember .. | .members .. | .list .. | .update ..
  | .delete .. | .setLocation .. | .getLocation .. => true
  | _ => false

/-- The actions that look things up. -/
def looksUp : Action → Bool
  | .consumerRegistered _ => true
  | a => a.isAdministrative

theorem looksUp_of_administrative {a : Action} (ha : a.isAdministrative = true) :
    a.looksUp = true := by
  cases a with
  | consumerRegistered => rfl
  | _ => exact ha

/-- An action is a call, tells of a new consumer, ends the session, or looks nothing up. -/
theorem kinds (a : Action) :
    a.isAdministrative = true ∨ (∃ c, a = .consumerRegistered c) ∨ a = .shutdown ∨
      (a.looksUp = false ∧ a ≠ .shutdown) := by
  by_cases ha : a.isAdministrative = true
  · exact Or.inl ha
  refine Or.inr ?_
  cases a with
  | consumerRegistered c => exact Or.inl ⟨c, rfl⟩
  | shutdown => exact Or.inr (Or.inl rfl)
  | _ => exact Or.inr (Or.inr ⟨Bool.eq_false_iff.mpr ha, fun he => by cases he⟩)

/-- The names that are drawn for a new member of a factory. -/
def names : Action → List String
  | .createMember _ _ names => names
  | _ => []

end Action

namespace View

/-- The task that waits longest runs. -/
inductive Work : View → View → Prop
  | work {v v' : View} {t : Task} {rest : List Task} (waiting : v.waiting = t :: rest)
    (effects : TaskEffects t { v with waiting := rest } v') : Work v v'

/-- What an action does to what deliveries see. -/
inductive Deal (admits : Record → Prop) : Action → View → View → Prop
  | nothing {a : Action} {v : View} : Deal admits a v v
  | call {a : Action} {v v₁ v' : View} (administrative : a.isAdministrative = true)
    (lookups : v.Lookups admits v₁) (amended : v' = v₁ ∨ v₁.Amendment v') : Deal admits a v v'
  | register {c : Consumer} {v v' : View} (greetings : Greetings admits c c.service.pids v v') :
    Deal admits (.consumerRegistered c) v v'
  | withdraw {service : Nat} {v v' : View} (forgotten : ReflTransGen (Forgets service) v v') :
    Deal admits (.consumerWithdrawn service) v v'
  | uninstall {location : String} {v v' : View}
    (released : ReflTransGen (Release location) v v') :
    Deal admits (.locationUninstalled location) v v'
  | submit {t : Task} {v : View} : Deal admits (.submit t) v (v.enqueue t)
  | around {a : WorldAction} {v : View} {directory : Directory} :
    Deal admits (.around a) v { v with directory }
  | extend {a : Action} {v : View} {plugins : Pipeline} : Deal admits a v { v with plugins }
  | work {v v' : View} (work : Work v v') : Deal admits .runUpdate v v'
  /-- Everything that waits runs, and nothing stays cached. -/
  | stop {v v' : View} (works : ReflTransGen Work { v with accepting := false } v') :
    Deal admits .shutdown v { v' with cached := .empty, rosters := .empty }

end View

namespace Session

variable {admits : Record → Prop} (s : Session)

/-! ### Workers -/

theorem runUpdate_idle (hw : s.view.waiting = []) : s.runUpdate = s := by
  have hw' : s.updates.waiting = [] := hw
  rw [runUpdate, hw']

theorem runUpdate_busy {t : Task} {rest : List Task} (hw : s.view.waiting = t :: rest) :
    s.runUpdate = ({ s with updates := s.updates.pop } : Session).perform t := by
  have hw' : s.updates.waiting = t :: rest := hw
  rw [runUpdate, hw']

theorem view_pop {t : Task} {rest : List Task} (hw : s.view.waiting = t :: rest) :
    ({ s with updates := s.updates.pop } : Session).view = { s.view with waiting := rest } := by
  have hw' : s.updates.waiting = t :: rest := hw
  unfold view WorkLine.pop
  rw [hw']
  rfl

theorem runUpdate_view :
    (s.view.waiting = [] ∧ s.runUpdate = s) ∨ View.Work s.view s.runUpdate.view := by
  cases hw : s.view.waiting with
  | nil => exact Or.inl ⟨rfl, s.runUpdate_idle hw⟩
  | cons t rest =>
    refine Or.inr (View.Work.work hw ?_)
    rw [s.runUpdate_busy hw, ← s.view_pop hw]
    exact perform_taskEffects _ t

/-- A task is taken off the line, and no properties are changed. -/
theorem runUpdate_waiting : s.runUpdate.view.waiting = s.view.waiting.tail ∧
    ∀ h, (s.runUpdate.view.record h).properties = (s.view.record h).properties := by
  rcases s.runUpdate_view with ⟨hw, he⟩ | hwork
  · rw [he, hw]
    exact ⟨rfl, fun _ => rfl⟩
  · generalize s.runUpdate.view = v' at hwork ⊢
    cases hwork with
    | work waiting effects =>
      rw [waiting]
      exact ⟨effects.steady.waiting, fun h => (effects.steady.content h).properties⟩

theorem runUpdates_view (n : Nat) :
    ReflTransGen View.Work s.view (runUpdates n s).view := by
  induction n generalizing s with
  | zero => exact .refl
  | succ n ih =>
    unfold runUpdates
    rcases s.runUpdate_view with ⟨-, he⟩ | hw
    · rw [he]
      exact ih s
    · exact .head hw (ih s.runUpdate)

theorem runUpdates_waiting (n : Nat) :
    (runUpdates n s).view.waiting = s.view.waiting.drop n := by
  induction n generalizing s with
  | zero => rfl
  | succ n ih => rw [runUpdates, ih, s.runUpdate_waiting.1, List.drop_tail]

theorem drainUpdates_waiting : s.drainUpdates.view.waiting = [] :=
  (s.runUpdates_waiting _).trans List.drop_length

theorem runNotice_view : s.runNotice.view = s.view := by
  have htell : ∀ (n : Notice) (listeners : List Service) (s : Session),
      (listeners.foldl (fun s l => s.tell n l) s).view = s.view := by
    intro n listeners
    induction listeners with
    | nil => exact fun _ => rfl
    | cons l rest ih => exact fun s => (ih (s.tell n l)).trans (s.view_tell n l)
  unfold runNotice
  split
  · rfl
  · exact htell _ _ _

theorem runNotices_view (n : Nat) : (runNotices n s).view = s.view := by
  induction n generalizing s with
  | zero => rfl
  | succ n ih => exact (ih s.runNotice).trans s.runNotice_view

/-- What happens around a manager happens to the directory, as far as deliveries can see. -/
theorem view_around (action : WorldAction) : (s.step (.around action)).2.view =
    { s.view with directory := (s.toWorld.step action).directory } := by
  cases action with
  | withdraw id | behave id =>
    simp only [step, World.step]
    split <;> rfl
  | install | setState | uninstall | addConsumer | addListener | backend => rfl

/-- A session that is shut down runs everything that waits, and then empties its cache. -/
theorem shutdown_view : s.shutdown = s ∨ s.shutdown.view =
    { ({ s with updates := s.updates.close } : Session).drainUpdates.view with
      cached := .empty, rosters := .empty } := by
  unfold shutdown
  split
  · exact Or.inl rfl
  · right
    dsimp only
    generalize ({ s with updates := s.updates.close } : Session).drainUpdates = s₁
    -- notices are told to listeners, whom deliveries do not see
    have hnotices : ({ s₁ with notices := s₁.notices.close } : Session).drainNotices.view =
        s₁.view := runNotices_view { s₁ with notices := s₁.notices.close } _
    rw [← hnotices]
    rfl

theorem shutdown_deal : View.Deal admits .shutdown s.view s.shutdown.view := by
  rcases s.shutdown_view with he | he
  · rw [he]
    exact .nothing
  · rw [he]
    exact .stop (runUpdates_view { s with updates := s.updates.close } _)

variable {s}

/-! ### Actions -/

/-- An administrative call admits new records only: with a pid that was asked for, or under a
name that was drawn for a member. -/
theorem Closed.administrative (hs : s.Closed admits) {a : Action}
    (ha : a.isAdministrative = true)
    (hnew : ∀ r : Record, r.Blank → r.factoryPid = none ∨ r.pid ∈ a.names → admits r) :
    Conduct admits s (s.step a).2 := by
  cases a with
  | getOrCreate pid location =>
    exact (hs.getOrCreate pid location fun r hb hf => hnew r hb (Or.inl hf)).conduct
  | getExisting pid => exact (hs.getExisting pid).conduct
  | createMember f location names =>
    exact (hs.createMember f location names fun r hb hm => hnew r hb (Or.inr hm)).conduct
  | members f => exact (hs.members f).conduct
  | list filter => exact hs.onlyLooksUp.conduct
  | update pid p => exact hs.update pid p
  | delete pid => exact hs.delete pid
  | setLocation pid location => exact hs.setLocation pid location
  | getLocation pid => exact (hs.getLocation pid).conduct
  | consumerRegistered | consumerWithdrawn | listenerRegistered | listenerWithdrawn
  | locationUninstalled | submit | addPlugin | removePlugin | around | runUpdate | runNotice
  | shutdown => cases ha

/-- **Steps.**  What an action does to what deliveries see is one of the few things that a deal
is. -/
theorem Closed.step_deal (hs : s.Closed admits) (a : Action)
    (hnew : ∀ r : Record, r.Blank → r.factoryPid = none ∨ r.pid ∈ a.names → admits r) :
    View.Deal admits a s.view (s.step a).2.view := by
  by_cases ha : a.isAdministrative = true
  · obtain ⟨⟨v, hl, hv⟩, -⟩ := hs.administrative ha hnew
    exact .call ha hl hv
  cases a with
  | getOrCreate | getExisting | createMember | members | list | update | delete | setLocation
  | getLocation => exact absurd rfl ha
  | consumerRegistered c =>
    show View.Deal admits _ s.view (s.consumerRegistered c).view
    unfold consumerRegistered
    split
    · exact .register (hs.greetings c c.service.pids).1
    · exact .nothing
  | consumerWithdrawn service => exact .withdraw (consumerWithdrawn_view service)
  | locationUninstalled location => exact .uninstall (locationUninstalled_view location)
  | listenerRegistered l =>
    show View.Deal admits _ s.view (s.listenerRegistered l).view
    unfold listenerRegistered
    split
    · exact .nothing
    · exact .nothing
  | submit t =>
    show View.Deal admits _ s.view (s.schedule t).view
    rw [view_schedule]
    exact .submit
  | listenerWithdrawn => exact .nothing
  | addPlugin | removePlugin => exact .extend
  | around action =>
    show View.Deal admits _ s.view _
    rw [s.view_around action]
    exact .around
  | runUpdate =>
    show View.Deal admits _ s.view s.runUpdate.view
    rcases s.runUpdate_view with ⟨-, he⟩ | hw
    · rw [he]
      exact .nothing
    · exact .work hw
  | runNotice =>
    show View.Deal admits _ s.view s.runNotice.view
    rw [s.runNotice_view]
    exact .nothing
  | shutdown => exact s.shutdown_deal

end Session

namespace View

variable {admits : Record → Prop} {v v' : View}

/-! ### What stays alike -/

theorem Work.alike (hw : Work v v') : v.Alike v' := by
  cases hw with
  | work _ effects =>
    exact ⟨effects.steady.cached, effects.steady.accepting, effects.steady.content⟩

/-- An action that neither looks things up nor ends the session leaves the cached records alike. -/
theorem Deal.alike {a : Action} (hd : Deal admits a v v') (hl : a.looksUp = false)
    (hs : a ≠ .shutdown) : v.Alike v' := by
  cases hd with
  | nothing => exact .refl v
  | call administrative =>
    rw [Action.looksUp_of_administrative administrative] at hl
    cases hl
  | register => cases hl
  | withdraw forgotten => exact alike_of_steps (fun _ _ ho => ho.alike) forgotten
  | uninstall released => exact alike_of_steps (fun _ _ hr => hr.alike) released
  | submit => exact alike_enqueue v _
  | around | extend => exact ⟨rfl, rfl, fun _ => .refl _⟩
  | work hw => exact hw.alike
  | stop => exact absurd rfl hs

/-! ### What stays filed -/

theorem filed_of_empty (hc : v.cached = .empty) (hr : v.rosters = .empty) : v.Filed := by
  refine ⟨fun pid i h => ?_, fun f r h => ?_, fun f r h => ?_⟩
  · rw [hc, Table.get?_empty] at h
    cases h
  · rw [hr, Table.get?_empty] at h
    cases h
  · rw [hr, Table.get?_empty] at h
    cases h

/-- Small changes of one record, of its marks or its binding. -/
theorem Filed.change (hv : v.Filed) {f : Record → Record} (hp : ∀ r, (f r).pid = r.pid)
    (hd : ∀ r, (f r).deleted = r.deleted) (h : Handle) : (v.change h f).Filed := by
  refine ⟨fun pid i hc => ?_, hv.titled, hv.distinct⟩
  rw [length_change, v.record_change_of_eq hp, v.record_change_of_eq hd]
  exact hv.held pid i hc

theorem Filed.enqueue (hv : v.Filed) (t : Task) : (v.enqueue t).Filed := by
  rw [enqueue_eq]
  exact ⟨hv.held, hv.titled, hv.distinct⟩

theorem Greeting.filed {c : Consumer} {identity : String} (hg : Greeting c identity v v')
    (hv : v.Filed) : v'.Filed := by
  cases hg with
  | single | members => exact hv.enqueue _
  | unlisted => exact hv

theorem Greetings.filed {c : Consumer} {identities : List String}
    (hg : Greetings admits c identities v v') (hv : v.Filed) : v'.Filed := by
  induction hg with
  | done => exact hv
  | next hl hgreet _ ih => exact ih (hgreet.filed (hl.filed hv))

theorem Work.filed (hw : Work v v') (hv : v.Filed) : v'.Filed := by
  cases hw with
  | work _ effects => exact effects.filed ⟨hv.held, hv.titled, hv.distinct⟩

theorem Release.filed {location : String} (hr : Release location v v') (hv : v.Filed) :
    v'.Filed := by
  cases hr with
  | release =>
    exact (hv.change (fun r => by rw [r.release_eq]) (fun r => by rw [r.release_eq]) _).enqueue _

theorem Forgets.filed {service : Nat} (ho : Forgets service v v') (hv : v.Filed) :
    v'.Filed := by
  cases ho with
  | forget => exact hv.change (f := fun r => r.forget service) (fun _ => rfl) (fun _ => rfl) _

/-- What each step of a sequence keeps, the sequence keeps. -/
theorem keep_of_steps {r : View → View → Prop} {K : View → Prop}
    (hstep : ∀ v v', r v v' → K v → K v') (hr : ReflTransGen r v v') (h : K v) : K v' := by
  induction hr with
  | refl => exact h
  | tail _ hlast ih => exact hstep _ _ hlast ih

theorem Deal.filed {a : Action} (hd : Deal admits a v v') (hv : v.Filed) : v'.Filed := by
  cases hd with
  | nothing => exact hv
  | call _ lookups amended =>
    rcases amended with rfl | amended
    · exact lookups.filed hv
    · exact amended.filed (lookups.filed hv)
  | register greetings => exact greetings.filed hv
  | withdraw forgotten => exact keep_of_steps (fun _ _ h => h.filed) forgotten hv
  | uninstall released => exact keep_of_steps (fun _ _ h => h.filed) released hv
  | submit => exact hv.enqueue _
  | around | extend => exact ⟨hv.held, hv.titled, hv.distinct⟩
  | work hw => exact hw.filed hv
  | stop => exact filed_of_empty rfl rfl

end View

namespace Session

/-- A session that does not have to know where its records come from. -/
theorem closed_of_filed {s : Session} (h : s.view.Filed) : s.Closed fun _ => True :=
  ⟨h, Or.inl fun _ => trivial⟩

/-- What any action does to a session whose knowledge is filed. -/
theorem step_deal {s : Session} (h : s.view.Filed) (a : Action) :
    View.Deal (fun _ => True) a s.view (s.step a).2.view :=
  (closed_of_filed h).step_deal a fun _ _ _ => trivial

/-! ### Runs -/

theorem run_append (s : Session) (before after : List Action) :
    s.run (before ++ after) = (s.run before).run after := by
  induction before generalizing s with
  | nil => rfl
  | cons a rest ih => exact ih (s.step a).2

theorem run_concat (s : Session) (before : List Action) (a : Action) :
    s.run (before ++ [a]) = ((s.run before).step a).2 := by
  rw [run_append]
  rfl

theorem run_filed {s : Session} (h : s.view.Filed) (actions : List Action) :
    (s.run actions).view.Filed := by
  induction actions generalizing s with
  | nil => exact h
  | cons a rest ih => exact ih ((step_deal h a).filed h)

/-- A manager that starts loads its bindings, and is idle otherwise. -/
theorem start_eq {w : World} {settings : Settings} {s : Session}
    (h : start w settings = .ok s) :
    ∃ home bindings storage,
      (if w.storage.chain.isEmpty then ownStorage else w.storage).primary = .ok home ∧
      Bindings.load settings.bindingsId home w.directory.installedLocations
        (if w.storage.chain.isEmpty then ownStorage else w.storage) = (bindings, storage) ∧
      s = { toWorld := { w with storage }, settings, ownsStorage := w.storage.chain.isEmpty,
            bindings, listeners := w.directory.currentListeners } := by
  unfold start at h
  cases hv : settings.validate with
  | error e =>
    rw [hv] at h
    cases h
  | ok u =>
    rw [hv] at h
    cases hp : (if w.storage.chain.isEmpty then ownStorage else w.storage).primary with
    | error e =>
      simp only [hp, Except.mapError] at h
      cases h
    | ok home =>
      simp only [hp, Except.mapError] at h
      cases h
      exact ⟨home, _, _, rfl, rfl, rfl⟩

/-- It starts on the world as it is, with nothing cached and nothing to do. -/
theorem start_view {w : World} {settings : Settings} {s : Session}
    (h : start w settings = .ok s) :
    s.view = ⟨w.directory, w.access, {}, w.records, w.calls, .empty, .empty, [], true⟩ := by
  obtain ⟨home, bindings, storage, -, -, rfl⟩ := start_eq h
  rfl

theorem start_filed {w : World} {settings : Settings} {s : Session}
    (h : start w settings = .ok s) : s.view.Filed := by
  rw [start_view h]
  exact View.filed_of_empty rfl rfl

end Session
end Provisioning
