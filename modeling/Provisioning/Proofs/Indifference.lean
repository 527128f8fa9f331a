import Mathlib.Data.List.Forall2
import Provisioning.Proofs.Margins
import Provisioning.Proofs.Resemblance
import Provisioning.Proofs.Steps

/-! # Nothing that is called back steers the manager

How a consumer or a listener answers, and what plugins make of properties, is counted and handed
over, and that is all.  Two runs of the same calls, hooks and work, over worlds whose services
answer differently and with different plugins coming and going, make the same callbacks one by
one, but for what the properties contain, and come to the same records, rosters, bindings and
storage.

The argument goes by resemblance: tasks never look at what the sessions differ in
(`resemblance_alike`), calls and hooks leave it alone, and what changes it is left out of the
comparison.
-/
namespace Provisioning

/-- Two messages say the same, whatever properties they carry. -/
inductive Message.Alike : Message → Message → Prop
  | absent : Alike (.updated none) (.updated none)
  | updated (p q : Properties) : Alike (.updated (some p)) (.updated (some q))
  | memberUpdated (pid : String) (p q : Properties) :
    Alike (.memberUpdated pid p) (.memberUpdated pid q)
  | memberDeleted (pid : String) : Alike (.memberDeleted pid) (.memberDeleted pid)
  | noticed (n : Notice) : Alike (.noticed n) (.noticed n)

/-- Two callbacks go to the same consumer on the same occasion, and say the same but for the
properties. -/
structure Call.Alike (k k' : Call) : Prop where
  consumer : k'.consumer = k.consumer
  occasion : k'.occasion = k.occasion
  message : k.message.Alike k'.message

theorem Message.Alike.refl (m : Message) : m.Alike m := by
  cases m with
  | updated p => cases p with
    | none => exact .absent
    | some p => exact .updated p p
  | memberUpdated pid p => exact .memberUpdated pid p p
  | memberDeleted pid => exact .memberDeleted pid
  | noticed n => exact .noticed n

theorem Call.Alike.refl (k : Call) : k.Alike k := ⟨rfl, rfl, .refl _⟩

/-- Properties that are both there or both absent are handed over in the same way. -/
theorem Target.message_alike (t : Target) {p q : Option Properties}
    (h : q.isSome = p.isSome) : (t.message p).Alike (t.message q) := by
  cases p with
  | none => cases q with
    | none => exact .refl _
    | some q => cases h
  | some p => cases q with
    | none => cases h
    | some q => cases t with
      | single pid => exact .updated p q
      | member f pid => exact .memberUpdated pid p q

namespace Session

/-- Two sessions are alike: they differ in nothing but how services answer, the plugins, what
properties the callbacks contained, and how often callbacks succeeded or failed. -/
structure Alike (s t : Session) : Prop where
  rest : t = { s with
    directory := { s.directory with replies := t.directory.replies }
    plugins := t.plugins
    calls := t.calls
    tally := t.tally }
  calls : List.Forall₂ Call.Alike s.calls t.calls
  stale : t.tally.stale = s.tally.stale
  denied : t.tally.denied = s.tally.denied

namespace Alike

variable {s t : Session}

theorem refl (s : Session) : s.Alike s :=
  ⟨rfl, List.forall₂_same.mpr fun k _ => .refl k, rfl, rfl⟩

theorem eq_beside (h : s.Alike t) : t = s.beside t.margin := h.rest

theorem of_eq {m : Margin} (hrest : t = s.beside m) (hahead : m.ahead = [])
    (hcalls : List.Forall₂ Call.Alike s.calls m.calls) (hstale : m.tally.stale = s.tally.stale)
    (hdenied : m.tally.denied = s.tally.denied) : s.Alike t := by
  subst hrest
  obtain ⟨ahead, replies, plugins, calls, tally⟩ := m
  cases hahead
  exact ⟨rfl, hcalls, hstale, hdenied⟩

/-- What leaves the margin alone keeps sessions alike. -/
theorem of_beside {f : Session → Session} (h : s.Alike t)
    (hf : ∀ (m : Margin) (s : Session), f (s.beside m) = (f s).beside m) :
    (f s).Alike (f t) := by
  have hs : f s = (f s).beside s.margin := by rw [← hf, beside_margin]
  have hcalls : (f s).calls = s.calls := by
    rw [hs]
    rfl
  have htally : (f s).tally = s.tally := by
    rw [hs]
    rfl
  refine of_eq (m := t.margin) ?_ rfl (hcalls ▸ h.calls) (htally ▸ h.stale) (htally ▸ h.denied)
  rw [← hf, ← h.eq_beside]

theorem matches_ (h : s.Alike t) : s.Matches t := by
  rw [h.rest]
  exact ⟨rfl, rfl, rfl, rfl, rfl, fun _ => rfl, fun _ => rfl⟩

theorem updates (h : s.Alike t) : t.updates = s.updates := by rw [h.rest]

theorem notices (h : s.Alike t) : t.notices = s.notices := by rw [h.rest]

theorem stateOf (h : s.Alike t) (l : Service) :
    t.directory.stateOf l = s.directory.stateOf l := by
  rw [h.rest]
  rfl

theorem withUpdates (h : s.Alike t) (updates : WorkLine Task) :
    Alike { s with updates } { t with updates } :=
  of_eq (m := t.margin) (congrArg (fun x : Session => { x with updates }) h.rest) rfl h.calls
    h.stale h.denied

/-! ### Callbacks -/

theorem count (h : s.Alike t) {f g : Tally → Tally}
    (hstale : ∀ x y, y.stale = x.stale → (g y).stale = (f x).stale)
    (hdenied : ∀ x y, y.denied = x.denied → (g y).denied = (f x).denied) :
    (s.count f).Alike (t.count g) := by
  refine of_eq (m := { t.margin with tally := g t.tally }) ?_ rfl h.calls
    (hstale _ _ h.stale) (hdenied _ _ h.denied)
  exact congrArg (fun x : Session => { x with tally := g t.tally }) h.rest

/-- However a callback ends, nothing is counted that is compared. -/
theorem countResult (h : s.Alike t) {f : Tally → Tally} (hstale : ∀ x, (f x).stale = x.stale)
    (hdenied : ∀ x, (f x).denied = x.denied) (r r' : Except CallbackError Unit) :
    (s.countResult f r).Alike (t.countResult f r') := by
  have hf : ∀ r : Except CallbackError Unit, ∃ g : Tally → Tally,
      (∀ s : Session, s.countResult f r = s.count g) ∧ (∀ x, (g x).stale = x.stale) ∧
        ∀ x, (g x).denied = x.denied := by
    intro r
    cases r with
    | ok _ => exact ⟨f, fun _ => rfl, hstale, hdenied⟩
    | error e =>
      exact ⟨fun x => { x with failed := x.failed + 1 }, fun _ => rfl, fun _ => rfl,
        fun _ => rfl⟩
  obtain ⟨g, hg, hgs, hgd⟩ := hf r
  obtain ⟨g', hg', hgs', hgd'⟩ := hf r'
  rw [hg, hg']
  exact h.count (fun x y hy => by rw [hgs, hgs', hy]) fun x y hy => by rw [hgd, hgd', hy]

theorem noteCall (h : s.Alike t) (target : Target) (c : Consumer) {p q : Option Properties}
    (hpq : q.isSome = p.isSome) (o : Option Occasion) :
    (s.noteCall target c p o).Alike (t.noteCall target c q o) := by
  unfold Session.noteCall Target.call?
  by_cases hk : (c.kind == target.kind) = true
  · have hcall : Call.Alike ⟨c, target.message p, o⟩ ⟨c, target.message q, o⟩ :=
      ⟨rfl, rfl, target.message_alike hpq⟩
    have hcalls : List.Forall₂ Call.Alike (s.calls ++ [⟨c, target.message p, o⟩])
        (t.calls ++ [⟨c, target.message q, o⟩]) :=
      List.rel_append h.calls (List.Forall₂.cons hcall .nil)
    simp only [if_pos hk]
    refine of_eq (m := ⟨[], t.directory.replies, t.plugins, _, t.tally⟩) ?_ rfl hcalls h.stale
      h.denied
    exact congrArg (fun x : Session =>
      { x with calls := t.calls ++ [Call.mk c (target.message q) o] }) h.rest
  · simp only [if_neg hk]
    exact h

theorem change (h : s.Alike t) (i : Handle) (f : Record → Record) :
    (s.change i f).Alike (t.change i f) :=
  h.of_beside (f := fun s => s.change i f) fun m s => s.change_beside m i f

theorem revoke (h : s.Alike t) (i : Handle) (target : Target) (c : Consumer) :
    (s.revoke i target c).Alike (t.revoke i target c) := by
  unfold Session.revoke
  rw [h.matches_.record]
  refine (h.noteCall target c rfl _).countResult ?_ ?_ _ _ <;> exact fun _ => rfl

/-- The plugins are given the same properties, and leave none out. -/
theorem serve (h : s.Alike t) (i : Handle) (target : Target) (c : Consumer) (g : Nat)
    (p : Properties) : (s.serve i target c g p).Alike (t.serve i target c g p) := by
  unfold Session.serve
  dsimp only
  rw [h.matches_.record]
  refine change (countResult (h.noteCall target c (by rfl) _) ?_ ?_ _ _) i _ <;>
    exact fun _ => rfl

theorem greet (h : s.Alike t) (pid : String) (c : Consumer) (o : Option Occasion) :
    (s.greet pid c o).Alike (t.greet pid c o) :=
  (h.noteCall (.single pid) c rfl o).countResult (fun _ => rfl) (fun _ => rfl) _ _

theorem tell (h : s.Alike t) (n : Notice) (l : Service) : (s.tell n l).Alike (t.tell n l) := by
  unfold Session.tell
  rw [h.stateOf]
  split
  · have htold : Alike { s with notifications := s.notifications ++ [⟨l, n⟩] }
        { t with notifications := t.notifications ++ [⟨l, n⟩] } :=
      h.of_beside (f := fun s => { s with notifications := s.notifications ++ [⟨l, n⟩] })
        fun _ _ => rfl
    refine htold.countResult ?_ ?_ _ _ <;> exact fun _ => rfl
  · exact h

end Alike

/-- **Tasks do not look at what alike sessions differ in.** -/
theorem resemblance_alike : Resemblance Alike where
  sees h := h.matches_
  change h := h.change
  assignBinding h pid location :=
    h.of_beside (f := fun s => s.assignBinding pid location) fun _ _ => rfl
  announce h c i := h.of_beside (f := fun s => s.announce c i) fun m s => s.announce_beside m c i
  keepRoster h r := h.of_beside (f := fun s => s.keepRoster r) fun _ _ => rfl
  withStorage h storage := h.of_beside (f := fun s => { s with storage }) fun _ _ => rfl
  withNotices h notices := h.of_beside (f := fun s => { s with notices }) fun _ _ => rfl
  skip h := h.count (fun _ _ hy => congrArg (· + 1) hy) fun _ _ hy => hy
  deny h := h.count (fun _ _ hy => hy) fun _ _ hy => congrArg (· + 1) hy
  revoke h := h.revoke
  serve h := h.serve
  greet h := h.greet
  tell h := h.tell

namespace Alike

variable {s t : Session}

/-! ### Steps -/

theorem runUpdate (h : s.Alike t) : s.runUpdate.Alike t.runUpdate := by
  unfold Session.runUpdate
  rw [h.updates]
  split
  · exact h
  · exact resemblance_alike.perform (h.withUpdates _) _

theorem runUpdates (h : s.Alike t) (n : Nat) :
    (Session.runUpdates n s).Alike (Session.runUpdates n t) := by
  induction n generalizing s t with
  | zero => exact h
  | succ n ih => exact ih h.runUpdate

theorem shutdown (h : s.Alike t) : s.shutdown.Alike t.shutdown := by
  have hrun : Alike ({ s with updates := s.updates.close } : Session).drainUpdates
      ({ t with updates := t.updates.close } : Session).drainUpdates := by
    unfold drainUpdates
    rw [h.updates]
    exact (h.withUpdates _).runUpdates _
  unfold Session.shutdown
  dsimp only
  generalize ({ s with updates := s.updates.close } : Session).drainUpdates = s' at hrun ⊢
  generalize ({ t with updates := t.updates.close } : Session).drainUpdates = t' at hrun ⊢
  have hsent : Alike ({ s' with notices := s'.notices.close } : Session).drainNotices
      ({ t' with notices := t'.notices.close } : Session).drainNotices := by
    unfold drainNotices
    rw [hrun.notices]
    exact resemblance_alike.runNotices (resemblance_alike.withNotices hrun _) _
  rw [h.updates, h.notices]
  split
  · exact h
  · exact hsent.of_beside (f := fun s => { s with cache := {} }) fun _ _ => rfl

end Alike
end Session

/-! ### Runs -/

namespace Action

/-- Whether an action changes no more than the plugins or how a service answers. -/
def isTuning : Action → Bool
  | .addPlugin .. | .removePlugin _ | .around (.behave ..) => true
  | _ => false

end Action

namespace Session

variable {s t : Session}

/-- What happens around a manager does not depend on the margin, unless it changes how a
service answers. -/
theorem around_beside (m : Margin) (s : Session) {a : WorldAction}
    (ha : (Action.around a).isTuning = false) :
    ({ s.beside m with toWorld := (s.beside m).toWorld.step a } : Session) =
      Session.beside m { s with toWorld := s.toWorld.step a } := by
  cases a with
  | behave => cases ha
  | withdraw id =>
    have hservice : (s.beside m).directory.service? id = s.directory.service? id := rfl
    cases hs : s.directory.service? id with
    | none => simp only [World.step, hservice, hs]
    | some l =>
      simp only [World.step, hservice, hs]
      rfl
  | uninstall location =>
    have hproviders : (s.beside m).directory.providers = s.directory.providers := rfl
    cases hs : s.directory.providers.get? location with
    | none => simp only [World.step, Directory.uninstall, hproviders, hs]
    | some n =>
      simp only [World.step, Directory.uninstall, hproviders, hs]
      rfl
  | install location | setState location | addConsumer kind location | addListener location =>
    have hproviders : (s.beside m).directory.providers = s.directory.providers := rfl
    cases hs : s.directory.providers.get? location <;>
      simp only [World.step, Directory.setState, Directory.registerConsumer,
        Directory.registerListener, Directory.enroll, Directory.provide, hproviders, hs] <;> rfl
  | backend => rfl

/-- An action that tunes a session changes the plugins and the replies at most. -/
theorem step_tuning (s : Session) {a : Action} (ha : a.isTuning = true) :
    ∃ replies plugins, (s.step a).2 = s.beside { s.margin with replies, plugins } := by
  cases a with
  | addPlugin | removePlugin => exact ⟨_, _, rfl⟩
  | around a =>
    cases a with
    | behave id reply =>
      cases hs : s.directory.service? id with
      | none => exact ⟨s.directory.replies, s.plugins, by simp only [step, World.step, hs]; rfl⟩
      | some l =>
        exact ⟨(s.directory.behave l reply).replies, s.plugins, by
          simp only [step, World.step, hs]
          rfl⟩
    | _ => cases ha
  | _ => cases ha

namespace Alike

theorem tune_left (h : s.Alike t) {a : Action} (ha : a.isTuning = true) :
    (s.step a).2.Alike t := by
  obtain ⟨replies, plugins, he⟩ := s.step_tuning ha
  rw [he]
  exact ⟨h.rest, h.calls, h.stale, h.denied⟩

theorem tune_right (h : s.Alike t) {a : Action} (ha : a.isTuning = true) :
    s.Alike (t.step a).2 := by
  obtain ⟨replies, plugins, he⟩ := t.step_tuning ha
  rw [he]
  exact of_eq (m := { t.margin with replies, plugins })
    ((congrArg (beside { t.margin with replies, plugins }) h.eq_beside).trans rfl) rfl h.calls
    h.stale h.denied

/-- **Steps**: alike sessions answer the same, and stay alike. -/
theorem step (h : s.Alike t) {a : Action} (ha : a.isTuning = false) :
    (t.step a).1 = (s.step a).1 ∧ (s.step a).2.Alike (t.step a).2 := by
  by_cases hcall : a.isCall = true
  · refine ⟨?_, h.of_beside (f := fun s => (s.step a).2) fun m s => by
      rw [step_beside m s hcall]
      rfl⟩
    rw [h.eq_beside, step_beside _ s hcall]
    rfl
  cases a with
  | addPlugin | removePlugin => cases ha
  | around a =>
    exact ⟨rfl, h.of_beside (f := fun s => { s with toWorld := s.toWorld.step a })
      fun m s => s.around_beside m ha⟩
  | runUpdate => exact ⟨rfl, h.runUpdate⟩
  | runNotice => exact ⟨rfl, resemblance_alike.runNotice h⟩
  | shutdown => exact ⟨rfl, h.shutdown⟩
  | _ => exact absurd rfl hcall

end Alike

/-- What the actions of a run answer that do not tune the session. -/
def answers (s : Session) : List Action → List Answer
  | [] => []
  | a :: rest =>
    if a.isTuning then (s.step a).2.answers rest else (s.step a).1 :: (s.step a).2.answers rest

theorem answers_tuning {a : Action} (ha : a.isTuning = true) (rest : List Action) :
    s.answers (a :: rest) = (s.step a).2.answers rest := if_pos ha

theorem answers_cons {a : Action} (ha : a.isTuning = false) (rest : List Action) :
    s.answers (a :: rest) = (s.step a).1 :: (s.step a).2.answers rest :=
  if_neg (Bool.eq_false_iff.mp ha)

/-- The actions that do not tune a session. -/
def untuned (actions : List Action) : List Action := actions.filter fun a => !a.isTuning

/-- Sessions stay alike while they are tuned. -/
theorem Alike.tunes (h : s.Alike t) {actions : List Action} (hn : untuned actions = []) :
    t.answers actions = [] ∧ s.Alike (t.run actions) := by
  induction actions generalizing t with
  | nil => exact ⟨rfl, h⟩
  | cons a rest ih =>
    cases ha : a.isTuning with
    | true =>
      rw [answers_tuning ha]
      exact ih (h.tune_right ha) (by simpa [untuned, ha] using hn)
    | false => simp [untuned, ha] at hn

/-- **Runs** of the same actions, but for those that tune, answer the same and end alike. -/
theorem Alike.run (h : s.Alike t) {actions actions' : List Action}
    (hsame : untuned actions = untuned actions') :
    t.answers actions' = s.answers actions ∧ (s.run actions).Alike (t.run actions') := by
  -- along the first run; the second one catches up to each action that does not tune
  induction actions generalizing s t actions' with
  | nil => exact h.tunes hsame.symm
  | cons a rest ih =>
    cases ha : a.isTuning with
    | true =>
      rw [answers_tuning ha]
      exact ih (h.tune_left ha) (by simpa [untuned, ha] using hsame)
    | false =>
      induction actions' generalizing t with
      | nil => simp [untuned, ha] at hsame
      | cons a' rest' ih' =>
        cases ha' : a'.isTuning with
        | true =>
          rw [answers_tuning ha']
          exact ih' (h.tune_right ha') (by simpa [untuned, ha'] using hsame)
        | false =>
          obtain ⟨rfl, hrest⟩ : a = a' ∧ untuned rest = untuned rest' := by
            simpa [untuned, ha, ha'] using hsame
          obtain ⟨hanswer, hnext⟩ := h.step ha
          obtain ⟨hanswers, hend⟩ := ih hnext hrest
          rw [answers_cons ha, answers_cons ha, hanswer, hanswers]
          exact ⟨rfl, hend⟩

/-- How the services of the world answer has no part in the start. -/
theorem start_replies {w : World} {settings : Settings} (h : start w settings = .ok s)
    (replies : Service → Message → Reply) :
    start { w with directory := { w.directory with replies } } settings =
      .ok (s.beside { s.margin with replies }) := by
  have hsame : start { w with directory := { w.directory with replies } } settings =
      (start w settings).map fun s => s.beside { s.margin with replies } := by
    unfold start
    cases settings.validate with
    | error e => rfl
    | ok _ =>
      dsimp only [bind, Except.bind]
      cases (if w.storage.chain.isEmpty then ownStorage else w.storage).primary <;> rfl
  rw [hsame, h]
  rfl

/-- **Neither replies nor plugins steer a session.**  Take two runs that start on the same world,
but for how its services answer, and take the same actions, but for those that add or remove
plugins or change how a service answers.  They answer the same and end alike. -/
theorem runs_indifferent {w : World} {settings : Settings} (hstart : start w settings = .ok s)
    (replies : Service → Message → Reply) {actions actions' : List Action}
    (hsame : untuned actions = untuned actions') :
    ∃ s', start { w with directory := { w.directory with replies } } settings = .ok s' ∧
      s'.answers actions' = s.answers actions ∧ (s.run actions).Alike (s'.run actions') := by
  have halike : s.Alike (s.beside { s.margin with replies }) :=
    ⟨rfl, (Alike.refl s).calls, rfl, rfl⟩
  exact ⟨_, start_replies hstart replies, halike.run hsame⟩

/-- A consumer of one configuration. -/
def receiver : Consumer where
  service := { id := 1, pids := ["pid"], location := "here", provider := 0 }
  kind := .single

/-- The consumer is attached, and then the configuration is made and updated. -/
def smooth : List Action :=
  [.around (.addConsumer .single "here" ["pid"] 0), .consumerRegistered receiver, .runUpdate,
    .getOrCreate "pid" none, .update "pid" .empty, .runUpdate]

/-- The same, with a plugin that writes into the properties and then breaks down. -/
def meddled : List Action :=
  .addPlugin 0 none (fun _ q => (q.put "level" (.text "low"), .crash "broken")) :: smooth

/-- The consumer that breaks down each time is called as often as the one that accepts. -/
theorem runs_indifferent_meddled :
    ∃ s s', start {} {} = .ok s ∧
      start { directory := { replies := fun _ _ => .crash "down" } } {} = .ok s' ∧
      untuned smooth = untuned meddled ∧ (s.run smooth).Alike (s'.run meddled) ∧
      (s.run smooth).calls.length = 2 ∧ (s.run smooth).tally = { delivered := 1 } ∧
      (s'.run meddled).tally = { failed := 2 } := by
  obtain ⟨s, hs⟩ : ∃ s, start {} {} = .ok s := ⟨_, rfl⟩
  obtain ⟨s', hs', -, halike⟩ :=
    runs_indifferent hs (fun _ _ => .crash "down") (show untuned smooth = untuned meddled from rfl)
  refine ⟨s, s', hs, hs', rfl, halike, ?_⟩
  cases hs
  cases hs'
  exact ⟨rfl, rfl, rfl⟩

end Session
end Provisioning
