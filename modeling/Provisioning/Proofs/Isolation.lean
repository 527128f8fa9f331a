import Provisioning.Proofs.Disclosure
import Provisioning.Proofs.Moves
import Provisioning.Proofs.Writing

/-! # Identities keep apart

Configurations, the rosters of factories and the table of bindings share the ids of one storage.
A call on a configuration, and whatever work it queues, writes to the dictionary of that
configuration, to the roster of its factory and to its own binding, and leaves what is stored for
everybody else as it is.  This takes that ids do not collide: a configuration may be created under
the id of a roster or of the bindings, and overwrites them.

The table of bindings is always written as a whole.  If it could not be stored at an earlier time,
a call brings what is stored of other bindings up to date.
-/
namespace Provisioning

open Relation (ReflTransGen)

/-- The scope of one configuration: its dictionary, its binding and the roster of its factory. -/
def Scope.of (pid : String) (factoryPid : Option String) : Scope :=
  ⟨(· = pid), (· = pid), (factoryPid = some ·), False⟩

/-- A scope of configurations whose ids do not collide with others. -/
structure Scope.Apart (scope : Scope) (bindingsId : String) : Prop where
  stored : ∀ pid, scope.stored pid → ¬Storage.Reserved bindingsId pid
  rosters : ∀ f, Roster.idOf f ≠ bindingsId
  untampered : ¬scope.tampering

theorem Roster.idOf_injective {f g : String} (h : idOf f = idOf g) : f = g := by
  have hdata := congrArg String.toList h
  simp only [idOf, String.toList_append] at hdata
  exact String.toList_inj.mp (List.append_cancel_right hdata)

theorem Roster.getLast?_idOf (f : String) : (idOf f).toList.getLast? = some 'y' := by
  simp [idOf]

/-- An id that does not end like that of a roster. -/
theorem Storage.not_reserved {bindingsId id : String} (hne : id ≠ bindingsId)
    (hlast : id.toList.getLast? ≠ some 'y') : ¬Reserved bindingsId id := by
  rintro (he | ⟨f, he⟩)
  · exact hne he
  · rw [he] at hlast
    exact hlast (Roster.getLast?_idOf f)

/-- The bindings are not stored under the id of a roster, unless that is asked for. -/
theorem Settings.idOf_ne_bindingsId (f : String) :
    Roster.idOf f ≠ ({} : Settings).bindingsId := by
  intro he
  have hlast := Roster.getLast?_idOf f
  rw [he] at hlast
  exact absurd hlast (by decide)

namespace Session

variable {scope : Scope} {s s' s'' : Session}

/-- Whoever is out of a scope finds in the storage what was there before; or, of the bindings, what
the table says. -/
structure Spared (scope : Scope) (s s' : Session) : Prop where
  id : s'.bindings.id = s.bindings.id
  home : s'.bindings.home = s.bindings.home
  dictionaries : ∀ name id, ¬scope.stored id → (∀ f, scope.factories f → id ≠ Roster.idOf f) →
    (name = s.bindings.home → id ≠ s.bindings.id) →
    s'.storage.held name id = s.storage.held name id
  table : ∀ pid, ¬scope.bound pid → s'.bindings.get? pid = s.bindings.get? pid
  bindings : ∀ pid, ¬scope.bound pid →
    s'.bindings.stored? s'.storage pid = s.bindings.stored? s.storage pid ∨
      s'.bindings.stored? s'.storage pid = s.bindings.get? pid

namespace Spared

theorem of_same (hb : s'.bindings = s.bindings) (hs : s'.storage = s.storage) :
    Spared scope s s' where
  id := by rw [hb]
  home := by rw [hb]
  dictionaries := fun _ _ _ _ _ => by rw [hs]
  table := fun _ _ => by rw [hb]
  bindings := fun _ _ => Or.inl (by rw [hb, hs])

theorem refl (s : Session) : Spared scope s s := of_same rfl rfl

theorem trans (h : Spared scope s s') (h' : Spared scope s' s'') : Spared scope s s'' where
  id := h'.id.trans h.id
  home := h'.home.trans h.home
  dictionaries := fun name id hs hf hb =>
    (h'.dictionaries name id hs hf (h.home ▸ h.id ▸ hb)).trans (h.dictionaries name id hs hf hb)
  table := fun pid hp => (h'.table pid hp).trans (h.table pid hp)
  bindings := by
    intro pid hp
    rcases h'.bindings pid hp with he | he
    · rw [he]
      exact h.bindings pid hp
    · rw [he, h.table pid hp]
      exact Or.inr rfl

/-- Another dictionary than that of the bindings is written. -/
theorem of_held {home id : String} {d : Option Properties} (hid : id ≠ s.bindings.id)
    (hin : scope.stored id ∨ ∃ f, scope.factories f ∧ id = Roster.idOf f)
    (hb : s'.bindings = s.bindings)
    (hs : ∀ name' id', s'.storage.held name' id' =
      if name' = home ∧ id' = id then d else s.storage.held name' id') : Spared scope s s' where
  id := by rw [hb]
  home := by rw [hb]
  dictionaries := by
    intro name id' hst hf _
    rw [hs, if_neg]
    rintro ⟨-, rfl⟩
    rcases hin with hin | ⟨f, hin, he⟩
    · exact hst hin
    · exact hf f hin he
  table := fun _ _ => by rw [hb]
  bindings := by
    intro pid _
    left
    unfold Bindings.stored?
    rw [hb, hs, if_neg fun he => hid he.2.symm]

/-- A binding in the scope is set or cleared. -/
theorem of_put {pid : String} (hp : scope.bound pid) {location : Option String}
    (written : (s'.bindings, s'.storage) = s.bindings.put pid location s.storage) :
    Spared scope s s' := by
  have hb : s'.bindings = s.bindings.assign pid location := congrArg Prod.fst written
  have hs : s'.storage = if s.bindings.get? pid == location then s.storage
      else (s.bindings.assign pid location).persist s.storage := congrArg Prod.snd written
  obtain ⟨hid, hhome⟩ := s.bindings.assign_identity pid location
  have htable : ∀ pid', ¬scope.bound pid' → s'.bindings.get? pid' = s.bindings.get? pid' := by
    intro pid' hp'
    rw [hb, s.bindings.get?_assign, if_neg]
    rintro rfl
    exact hp' hp
  -- the storage stays as it is, or takes the whole table
  have hcases : s'.storage = s.storage ∨ s.storage.store s'.bindings.home s'.bindings.id
      (Bindings.encode s'.bindings.table.entries) = .ok s'.storage := by
    rw [hs, hb]
    split
    · exact Or.inl rfl
    · exact (s.bindings.assign pid location).persist_cases s.storage
  rw [← hb] at hid hhome
  refine ⟨hid, hhome, fun name id _ _ hne => ?_, htable, fun pid' hp' => ?_⟩
  · rcases hcases with he | hstore
    · rw [he]
    · rw [Storage.held_store hstore, if_neg]
      rintro ⟨rfl, rfl⟩
      exact hne hhome hid
  · rcases hcases with he | hstore
    · left
      unfold Bindings.stored?
      rw [hid, hhome, he]
    · right
      rw [s'.bindings.stored?_of_encode, htable pid' hp']
      rw [Storage.held_store hstore, if_pos ⟨rfl, rfl⟩]

/-- Bindings in the scope are cleared, one after the other. -/
theorem of_withdrawAll {pids : List String} (hp : ∀ pid ∈ pids, scope.bound pid)
    (written : (s'.bindings, s'.storage) = Bindings.withdrawAll pids (s.bindings, s.storage)) :
    Spared scope s s' := by
  induction pids generalizing s with
  | nil => exact of_same (congrArg Prod.fst written) (congrArg Prod.snd written)
  | cons pid rest ih =>
    have hput : ((s.assignBinding pid none).bindings, (s.assignBinding pid none).storage) =
        s.bindings.put pid none s.storage := rfl
    have hone : Spared scope s (s.assignBinding pid none) :=
      of_put (hp pid List.mem_cons_self) hput
    exact hone.trans (ih (fun p hm => hp p (List.mem_cons_of_mem pid hm)) written)

end Spared

/-- **One stroke** spares whoever is out of its scope. -/
theorem Stroke.spared (hs : Stroke scope s s') (hap : scope.Apart s.bindings.id) :
    Spared scope s s' := by
  cases hs with
  | sameButMarks hsame => exact .of_same hsame.bindings hsame.storage
  | adopt _ _ _ _ _ same | commit _ same | found _ _ _ _ same | lag _ _ _ _ same
  | queue _ _ same => exact .of_same same.bindings same.storage
  | @store home pid d within stored _ bindings =>
    exact .of_held (fun he => hap.stored pid within (Or.inl he)) (Or.inl within) bindings
      (Storage.held_store stored)
  | @remove home pid within stored _ bindings =>
    exact .of_held (fun he => hap.stored pid within (Or.inl he)) (Or.inl within) bindings
      (Storage.held_delete stored)
  | enlist within _ _ stored _ bindings =>
    exact .of_held (hap.rosters _) (Or.inr ⟨_, within, rfl⟩) bindings (Storage.held_store stored)
  | bind within _ _ _ _ written => exact .of_put within written
  | settle within _ _ written => exact .of_put within written
  | drop within _ _ written => exact .of_put within written
  | vacate within _ _ _ _ _ _ written => exact .of_withdrawAll within written
  | tamper within => exact absurd within hap.untampered

theorem Strokes.spared (hs : Strokes scope s s') (hap : scope.Apart s.bindings.id) :
    Spared scope s s' := by
  induction hs with
  | refl => exact .refl s
  | tail _ hlast ih => exact ih.trans (hlast.spared (ih.id.symm ▸ hap))

/-- Of what is stored nothing has changed for others than one configuration: dictionaries, the
rosters of other factories than its own, and the bindings of other pids are what they were.  A
binding may have been brought up to date with the table. -/
structure Isolated (pid : String) (factoryPid : Option String) (s s' : Session) : Prop
    extends Spared (Scope.of pid factoryPid) s s' where
  rosters : ∀ name f, factoryPid ≠ some f →
    s'.storage.held name (Roster.idOf f) = s.storage.held name (Roster.idOf f)

theorem Spared.isolated {pid : String} {factoryPid : Option String}
    (h : Spared (Scope.of pid factoryPid) s s')
    (hap : (Scope.of pid factoryPid).Apart s.bindings.id) : Isolated pid factoryPid s s' where
  toSpared := h
  rosters := by
    intro name f hf
    refine h.dictionaries name _ (fun he => hap.stored _ he (Or.inr ⟨f, rfl⟩)) ?_
      fun _ => hap.rosters f
    rintro g hg he
    exact hf (Roster.idOf_injective he ▸ hg)

/-! ### Calls and what they queue -/

/-- The factory of the configuration that is found under a pid. -/
def factoryOf? (s : Session) (pid : String) : Option String :=
  match s.configuration pid with
  | (.ok (some h), s') => (s'.record h).factoryPid
  | _ => none

/-- A moment after another one: things have happened to the session; or, when it was shut down
then, some of what was waiting has been run. -/
def Later (s s' : Session) : Prop :=
  ∃ actions : List Action, .shutdown ∉ actions ∧
    (s' = s.run actions ∨
      ∃ n, s' = runUpdates n { s.run actions with updates := (s.run actions).updates.close })

theorem works_level (hw : ReflTransGen View.Work s.view s'.view) : s.Level s' := by
  have halike := View.alike_of_steps (fun _ _ h => h.alike) hw
  exact .of_content halike.cached (View.works_disclosesChecked hw).2.length halike.content

theorem within_all {a : Action} (hsub : ∀ t, a ≠ .submit t) (hend : a ≠ .shutdown) :
    Within Scope.all a :=
  ⟨hsub, hend, fun _ _ => trivial, fun _ _ _ => trivial⟩

theorem step_follows (hv : s.view.Filed) {a : Action} (hend : a ≠ .shutdown) :
    s.Follows (s.step a).2 := by
  by_cases hwork : a = .runUpdate
  · subst hwork
    rcases s.runUpdate_view with ⟨-, he⟩ | hw
    · show s.Follows s.runUpdate
      rw [he]
      exact .refl s
    · exact (works_level (.single hw)).follows
  by_cases hsub : ∃ t, a = .submit t
  · obtain ⟨t, rfl⟩ := hsub
    have hview : (s.step (.submit t)).2.view = s.view.enqueue t := s.view_schedule t
    refine Level.follows (.of_content ?_ ?_ fun h => ?_)
    · rw [hview, View.enqueue_eq]
    · rw [hview, View.enqueue_eq]
    · rw [← record_view (s.step (.submit t)).2, hview, View.record_enqueue]
      exact .refl _
  · exact (occurrence_strokes hv ⟨fun _ => trivial, fun _ => trivial⟩
      (within_all (fun t he => hsub ⟨t, he⟩) hend) hwork).follows

theorem run_follows (hv : s.view.Filed) {actions : List Action} (hend : .shutdown ∉ actions) :
    s.Follows (s.run actions) := by
  induction actions generalizing s with
  | nil => exact .refl s
  | cons a rest ih =>
    rw [List.mem_cons, not_or] at hend
    exact (step_follows hv (Ne.symm hend.1)).trans (ih ((step_deal hv a).filed hv) hend.2)

theorem Later.follows (hl : Later s s') (hv : s.view.Filed) : s.Follows s' ∧ s'.view.Filed := by
  obtain ⟨actions, hend, rfl | ⟨n, rfl⟩⟩ := hl
  · exact ⟨run_follows hv hend, run_filed hv actions⟩
  · have hrun := run_follows hv hend
    have hfiled := run_filed hv actions
    have hworks := runUpdates_view { s.run actions with updates := (s.run actions).updates.close } n
    have hclose : (s.run actions).Level
        { s.run actions with updates := (s.run actions).updates.close } :=
      ⟨rfl, rfl, fun _ => rfl, fun _ => rfl, fun _ => rfl⟩
    refine ⟨(hrun.trans hclose.follows).trans (works_level hworks).follows, ?_⟩
    exact View.keep_of_steps (fun _ _ hw => hw.filed) hworks
      ⟨hfiled.held, hfiled.titled, hfiled.distinct⟩

/-! ### The id of the bindings -/

theorem runUpdates_sameStored (n : Nat) (s : Session) : s.SameStored (runUpdates n s) := by
  induction n generalizing s with
  | zero => exact .refl s
  | succ n ih => exact s.runUpdate_sameStored.trans (ih s.runUpdate)

theorem runNotices_sameStored (n : Nat) (s : Session) : s.SameStored (runNotices n s) := by
  induction n generalizing s with
  | zero => exact .refl s
  | succ n ih => exact s.runNotice_sameStored.trans (ih s.runNotice)

theorem shutdown_sameStored (s : Session) : s.SameStored s.shutdown := by
  unfold shutdown
  split
  · exact .refl s
  · have hclose : s.SameStored { s with updates := s.updates.close } := ⟨rfl, .refl _⟩
    have hupdates := hclose.trans (runUpdates_sameStored s.updates.waiting.length _)
    generalize hs₁ : runUpdates s.updates.waiting.length _ = s₁ at hupdates
    have hclose' : s₁.SameStored { s₁ with notices := s₁.notices.close } := ⟨rfl, .refl _⟩
    have hnotices := hclose'.trans (runNotices_sameStored s₁.notices.waiting.length _)
    subst hs₁
    exact ⟨(hupdates.trans hnotices).id, (hupdates.trans hnotices).storage⟩

theorem Stroke.id (hs : Stroke scope s s') : s'.bindings.id = s.bindings.id := by
  have hput : ∀ {pid location}, (s'.bindings, s'.storage) =
      s.bindings.put pid location s.storage → s'.bindings.id = s.bindings.id := by
    intro pid location written
    have hb : s'.bindings = s.bindings.assign pid location := congrArg Prod.fst written
    rw [hb]
    exact (s.bindings.assign_identity pid location).1
  cases hs with
  | sameButMarks hsame => rw [hsame.bindings]
  | adopt _ _ _ _ _ same | commit _ same | found _ _ _ _ same | lag _ _ _ _ same
  | queue _ _ same => rw [same.bindings]
  | store _ _ _ bindings | remove _ _ _ bindings | enlist _ _ _ _ _ bindings
  | tamper _ _ bindings => rw [bindings]
  | bind _ _ _ _ _ written => exact hput written
  | settle _ _ _ written => exact hput written
  | drop _ _ _ written => exact hput written
  | @vacate location _ _ _ _ _ _ _ written =>
    have hb : s'.bindings = (Bindings.withdrawAll (s.bindings.boundTo location)
        (s.bindings, s.storage)).1 := congrArg Prod.fst written
    rw [hb, Bindings.withdrawAll_id]

theorem Strokes.id (hs : Strokes scope s s') : s'.bindings.id = s.bindings.id := by
  induction hs with
  | refl => rfl
  | tail _ hlast ih => exact hlast.id.trans ih

theorem step_id (hv : s.view.Filed) (a : Action) :
    (s.step a).2.bindings.id = s.bindings.id := by
  by_cases hwork : a = .runUpdate
  · subst hwork
    exact s.runUpdate_sameStored.id
  by_cases hend : a = .shutdown
  · subst hend
    exact s.shutdown_sameStored.id
  by_cases hsub : ∃ t, a = .submit t
  · obtain ⟨t, rfl⟩ := hsub
    rfl
  · exact (occurrence_strokes hv ⟨fun _ => trivial, fun _ => trivial⟩
      (within_all (fun t he => hsub ⟨t, he⟩) hend) hwork).id

theorem run_id (hv : s.view.Filed) (actions : List Action) :
    (s.run actions).bindings.id = s.bindings.id := by
  induction actions generalizing s with
  | nil => rfl
  | cons a rest ih => exact (ih ((step_deal hv a).filed hv)).trans (step_id hv a)

theorem Later.id (hl : Later s s') (hv : s.view.Filed) : s'.bindings.id = s.bindings.id := by
  obtain ⟨actions, -, rfl | ⟨n, rfl⟩⟩ := hl
  · exact run_id hv actions
  · exact (runUpdates_sameStored n _).id.trans (run_id hv actions)

/-! ### Calls on one configuration -/

/-- The calls that may store a configuration, each about one. -/
theorem call_strokes (hv : s.view.Filed) {a : Action} {pid : String} (ha : a.stores = [pid]) :
    Strokes (Scope.of pid (s.factoryOf? pid)) s (s.step a).2 := by
  have hfactory : ∀ h, (s.require pid).1 = .ok h → ∀ f,
      ((s.require pid).2.record h).factoryPid = some f →
        (Scope.of pid (s.factoryOf? pid)).factories f := by
    intro h hok f hf
    obtain ⟨hsame, hfound⟩ := s.require_spec pid
    have hconf : s.configuration pid = (.ok (some h), (s.configuration pid).2) :=
      Prod.ext (hfound h hok) rfl
    rw [hsame] at hf
    show s.factoryOf? pid = some f
    unfold factoryOf?
    rw [hconf]
    exact hf
  cases a with
  | getOrCreate p location =>
    obtain rfl : p = pid := List.singleton_inj.mp ha
    exact s.getOrCreate_strokes rfl location
  | update p d =>
    obtain rfl : p = pid := List.singleton_inj.mp ha
    exact update_strokes hv rfl rfl hfactory d
  | delete p =>
    obtain rfl : p = pid := List.singleton_inj.mp ha
    exact delete_strokes hv rfl rfl hfactory
  | setLocation p location =>
    obtain rfl : p = pid := List.singleton_inj.mp ha
    exact setLocation_strokes hv rfl rfl hfactory location
  | _ => cases ha

/-- What a call queues waits behind the others. -/
theorem call_waiting (hv : s.view.Filed) {a : Action} {pid : String} (ha : a.stores = [pid]) :
    ∃ queued, (s.step a).2.view.waiting = s.view.waiting ++ queued := by
  have henqueue : ∀ (v : View) (t : Task),
      ∃ queued, (v.enqueue t).waiting = v.waiting ++ queued :=
    fun v t => (v.waiting_enqueue t).imp fun _ hq => hq.1
  have hdeal := step_deal hv a
  generalize (s.step a).2.view = v' at hdeal ⊢
  cases hdeal with
  | nothing | extend => exact ⟨[], (List.append_nil _).symm⟩
  | @call _ _ v₁ _ _ lookups amended =>
    rw [← lookups.extends.waiting]
    rcases amended with rfl | amended
    · exact ⟨[], (List.append_nil _).symm⟩
    · cases amended with
      | settle => exact ⟨[], (List.append_nil _).symm⟩
      | commit | discard | resettle => exact henqueue _ _
  | register | withdraw | uninstall | submit | around | work | stop => cases ha

/-- **Identities keep apart.**  Under ids that do not collide, at any time, a call on one
configuration leaves whatever is stored for others as it was: every dictionary but that of the
configuration, the roster of every factory but its own, and the bindings of all other pids, unless
the call brings them up to date with the table.  The work that it queues does the same, whenever it
is run. -/
theorem calls_isolated {w : World} {settings : Settings} (hs : start w settings = .ok s)
    (before : List Action) {a : Action} {pid : String} (ha : a.stores = [pid])
    (hpid : ¬Storage.Reserved settings.bindingsId pid)
    (hid : ∀ f, Roster.idOf f ≠ settings.bindingsId) :
    Isolated pid ((s.run before).factoryOf? pid) (s.run before) ((s.run before).step a).2 ∧
    ∃ queued, ((s.run before).step a).2.updates.waiting =
        (s.run before).updates.waiting ++ queued ∧
      ∀ t ∈ queued, ∀ s' rest, Later ((s.run before).step a).2 s' →
        s'.updates.waiting = t :: rest →
          Isolated pid ((s.run before).factoryOf? pid) s' s'.runUpdate := by
  have hv := run_filed (start_filed hs) before
  have hplace : (s.run before).bindings.id = settings.bindingsId :=
    (run_id (start_filed hs) before).trans (start_storage hs).1
  generalize s.run before = s₁ at hv hplace ⊢
  have hap : ∀ {s₂ : Session}, s₂.bindings.id = settings.bindingsId →
      (Scope.of pid (s₁.factoryOf? pid)).Apart s₂.bindings.id := by
    intro s₂ he
    rw [he]
    exact ⟨by rintro p rfl; exact hpid, hid, id⟩
  have hcall := call_strokes hv ha
  have hv' := hcall.filed hv
  have hplace' := (step_id hv a).trans hplace
  refine ⟨(hcall.spared (hap hplace)).isolated (hap hplace), ?_⟩
  obtain ⟨queued, hqueued⟩ := call_waiting hv ha
  obtain ⟨heeded, hsuffix, hheeds⟩ := hcall.queues
  refine ⟨queued, hqueued, fun t ht s' rest hl hline => ?_⟩
  -- what was queued last is among what speaks of the configuration
  have hmem : t ∈ heeded := by
    have hwaiting : (s₁.step a).2.view.waiting = s₁.view.waiting ++ queued := hqueued
    rw [hwaiting] at hsuffix
    have hlen := hsuffix.length_le
    rw [List.length_append, List.length_append] at hlen
    have hboth := List.suffix_of_suffix_length_le ((List.suffix_append _ queued).trans hsuffix)
      (List.suffix_append _ heeded) (Nat.le_of_add_le_add_left hlen)
    exact hboth.subset ht
  obtain ⟨hfollows, hfiled⟩ := hl.follows hv'
  have hplace'' := (hl.id hv').trans hplace'
  have hpop : Strokes (Scope.of pid (s₁.factoryOf? pid)) s' _ := s'.pop_sameButMarks.strokes
  have hwork := hpop.trans (perform_strokes (hpop.filed hfiled) fun h hh =>
    hpop.follows.heeds (hfollows.heeds (hheeds t hmem h hh)))
  rw [s'.runUpdate_busy hline]
  exact (hwork.spared (hap hplace'')).isolated (hap hplace'')

/-- A factory gets a member, and another record is bound while the bindings cannot be stored. -/
def unstored : List Action :=
  [.around (.addConsumer .single "here" ["other", "pid"] 0), .createMember "lamps" none ["lamp"],
    .update "lamp" .empty, .runUpdate, .getOrCreate "other" none, .update "other" .empty,
    .around (.backend "" fun b => { b with failing := true }), .runUpdate,
    .around (.backend "" fun b => { b with failing := false }), .getOrCreate "pid" none]

/-- The roster of the factory is left as it is by an update of a third record. -/
theorem calls_isolated_unstored :
    ∃ s, start {} {} = .ok s ∧ (Action.update "pid" .empty).stores = ["pid"] ∧
      ¬Storage.Reserved ({} : Settings).bindingsId "pid" ∧
      (∀ f, Roster.idOf f ≠ ({} : Settings).bindingsId) ∧
      ((s.run unstored).storage.held "" (Roster.idOf "lamps")).map Roster.listed =
        some ["lamp"] ∧
      ((s.run unstored).step (.update "pid" .empty)).2.storage.held "" (Roster.idOf "lamps") =
        (s.run unstored).storage.held "" (Roster.idOf "lamps") := by
  obtain ⟨s, hs⟩ : ∃ s, start {} {} = .ok s := ⟨_, rfl⟩
  have hid := Settings.idOf_ne_bindingsId
  have hpid : ¬Storage.Reserved ({} : Settings).bindingsId "pid" :=
    Storage.not_reserved (by decide) (by decide)
  have hall : ((s.run unstored).storage.held "" (Roster.idOf "lamps")).map Roster.listed =
      some ["lamp"] ∧ (s.run unstored).factoryOf? "pid" = none := by
    cases hs
    decide
  obtain ⟨hlisted, hsingle⟩ := hall
  obtain ⟨hcall, -⟩ := calls_isolated hs unstored (a := .update "pid" .empty) rfl hpid hid
  refine ⟨s, hs, rfl, hpid, hid, hlisted, hcall.rosters "" "lamps" ?_⟩
  rw [hsingle]
  exact (Option.some_ne_none "lamps").symm

/-- A call on a pid that passes the check changes what is stored for others: the roster of a factory
is lost when a configuration is created under its id, and the work of an update stores a binding of
another record, which the storage did not have. -/
theorem calls_not_isolated :
    ∃ s, start {} {} = .ok s ∧ checkPid (Roster.idOf "lamps") = .ok () ∧
      (s.run unstored).factoryOf? (Roster.idOf "lamps") = none ∧
      ((s.run unstored).storage.held "" (Roster.idOf "lamps")).map Roster.listed =
        some ["lamp"] ∧
      (((s.run unstored).step (.getOrCreate (Roster.idOf "lamps") none)).2.storage.held ""
        (Roster.idOf "lamps")).map Roster.listed = some [] ∧
      checkPid "pid" = .ok () ∧
      (s.run unstored).bindings.stored? (s.run unstored).storage "other" = none ∧
      ((s.run unstored).run [.update "pid" .empty, .runUpdate]).bindings.stored?
        ((s.run unstored).run [.update "pid" .empty, .runUpdate]).storage "other" =
          some "here" := by
  obtain ⟨s, hs⟩ : ∃ s, start {} {} = .ok s := ⟨_, rfl⟩
  refine ⟨s, hs, rfl, ?_⟩
  cases hs
  decide

end Session
end Provisioning
