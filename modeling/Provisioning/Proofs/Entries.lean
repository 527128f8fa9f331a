import Provisioning.Proofs.Isolation
import Provisioning.Proofs.Mirror
import Provisioning.Proofs.Rebuilding

/-! # What is entered into the storage

A manager enters three things into the storage: its table of bindings, rosters, and what its
cached records come to.  A rule says which dictionary may stand under which id of which backend.
A rule that lets these three pass is kept by whatever happens to a session, unless somebody else
writes to a backend.

Calls enter what a cached record comes to.  A task enters bindings and rosters only, and it does so
whatever records it speaks of: also one that somebody else submitted, and that refers to a record
which was never cached.  So a rule is kept by submitted tasks and by the end of a session, too.
-/
namespace Provisioning

/-- Which dictionary may stand under an id of a backend. -/
abbrev EntryRule := String → String → Properties → Prop

/-- A rule lets pass whatever a manager may store as its bindings, and any roster. -/
structure EntryRule.AdmitsReserved (rule : EntryRule) (bindingsId : String) : Prop where
  bindings : ∀ name pairs, rule name bindingsId (Bindings.encode pairs)
  rosters : ∀ name (r : Roster), rule name (Roster.idOf r.factoryPid) r.dictionary

/-- Whether all that is stored keeps to a rule. -/
def Storage.Obeys (st : Storage) (rule : EntryRule) : Prop :=
  ∀ name id d, st.held name id = some d → rule name id d

variable {rule : EntryRule}

namespace Storage

variable {st st' : Storage}

theorem Obeys.store (h : st.Obeys rule) {name id : String} {d : Properties} (hd : rule name id d)
    (hst : st.store name id d = .ok st') : st'.Obeys rule := by
  intro name' id' d' hheld
  rw [held_store hst] at hheld
  split at hheld
  · next he =>
    cases hheld
    rw [he.1, he.2]
    exact hd
  · exact h name' id' d' hheld

theorem Obeys.delete (h : st.Obeys rule) {name id : String} (hst : st.delete name id = .ok st') :
    st'.Obeys rule := by
  intro name' id' d' hheld
  rw [held_delete hst] at hheld
  split at hheld
  · cases hheld
  · exact h name' id' d' hheld

theorem Obeys.persist (h : st.Obeys rule) {t : Bindings} (ht : rule.AdmitsReserved t.id) :
    (t.persist st).Obeys rule := by
  rcases t.persist_cases st with he | hst
  · rw [he]
    exact h
  · exact h.store (ht.bindings t.home t.table.entries) hst

theorem Obeys.put (h : st.Obeys rule) {t : Bindings} (ht : rule.AdmitsReserved t.id) (pid : String)
    (location : Option String) : (t.put pid location st).2.Obeys rule := by
  unfold Bindings.put
  dsimp only
  split
  · exact h
  · refine h.persist ?_
    rw [(t.assign_identity pid location).1]
    exact ht

theorem Obeys.withdrawAll (h : st.Obeys rule) (pids : List String) {t : Bindings}
    (ht : rule.AdmitsReserved t.id) : (Bindings.withdrawAll pids (t, st)).2.Obeys rule := by
  induction pids generalizing t st with
  | nil => exact h
  | cons pid rest ih =>
    have hid : (t.put pid none st).1.id = t.id := (t.assign_identity pid none).1
    exact ih (h.put ht pid none) (hid ▸ ht)

theorem Obeys.load (h : st.Obeys rule) {id : String} (hid : rule.AdmitsReserved id) (home : String)
    (installed : List String) : (Bindings.load id home installed st).2.Obeys rule := by
  unfold Bindings.load
  dsimp only
  generalize Table.ofList _ = table
  split
  · exact h.persist (t := { id, home, table }) hid
  · exact h

end Storage

/-- The scope of what stores no configuration. -/
def Scope.unstored : Scope := ⟨fun _ => False, fun _ => True, fun _ => True, False⟩

theorem Scope.unstored_wide : Scope.unstored.Wide := ⟨fun _ => trivial, fun _ => trivial⟩

namespace Session

variable {s s' : Session}

/-- Whether a rule lets pass what may be stored for a cached record: what a record of the same pid
and factory comes to. -/
def Enters (rule : EntryRule) (s : Session) : Prop :=
  ∀ name pid h (r : Record), s.view.cached.get? pid = some h → r.pid = pid →
    r.factoryPid = (s.record h).factoryPid → rule name pid r.persisted

/-! ### Strokes -/

theorem Stroke.obeys (hs : Stroke .unstored s s') (hb : rule.AdmitsReserved s.bindings.id)
    (h : s.storage.Obeys rule) : s'.storage.Obeys rule := by
  have hput : ∀ {pid location}, (s'.bindings, s'.storage) =
      s.bindings.put pid location s.storage → s'.storage.Obeys rule := by
    intro pid location written
    have hst : s'.storage = _ := congrArg Prod.snd written
    rw [hst]
    exact h.put hb _ _
  cases hs with
  | sameButMarks hsame => exact hsame.storage ▸ h
  | adopt _ _ _ _ _ same | commit _ same | found _ _ _ _ same | lag _ _ _ _ same
  | queue _ _ same => exact same.storage ▸ h
  | store within | remove within | tamper within => exact within.elim
  | enlist _ _ _ stored => exact h.store (hb.rosters _ _) stored
  | bind _ _ _ _ _ written => exact hput written
  | settle _ _ _ written => exact hput written
  | drop _ _ _ written => exact hput written
  | vacate _ _ _ _ _ _ _ written =>
    have hst : s'.storage = _ := congrArg Prod.snd written
    rw [hst]
    exact h.withdrawAll _ hb

theorem Strokes.obeys (hs : Strokes .unstored s s') (hb : rule.AdmitsReserved s.bindings.id)
    (h : s.storage.Obeys rule) : s'.storage.Obeys rule := by
  induction hs with
  | refl => exact h
  | tail hfirst hlast ih => exact hlast.obeys ((Strokes.id hfirst).symm ▸ hb) ih

theorem configuration_obeys (hb : rule.AdmitsReserved s.bindings.id) (h : s.storage.Obeys rule)
    (pid : String) : (s.configuration pid).2.storage.Obeys rule :=
  (s.configuration_strokes .unstored pid).obeys hb h

/-! ### Calls that store a configuration -/

theorem getOrCreate_obeys (hb : rule.AdmitsReserved s.bindings.id) (h : s.storage.Obeys rule)
    (pid : String) (location : Option String)
    (he : (s.getOrCreate pid location).2.Enters rule) :
    (s.getOrCreate pid location).2.storage.Obeys rule := by
  have hcourse := s.creating pid location
  generalize s.getOrCreate pid location = result at hcourse he ⊢
  cases hcourse with
  | refused looked =>
    rcases looked with rfl | rfl
    · exact h
    · exact configuration_obeys hb h pid
  | found => exact configuration_obeys hb h pid
  | @made s₁ home r storage absent primary new stored =>
    obtain ⟨rfl, hnone⟩ := configuration_absent absent
    obtain ⟨rfl, -⟩ := restored_new new
    have hcached := cached_keepRecord (s := { s₁ with storage }) hnone
    have hrecord : (({ s₁ with storage } : Session).keepRecord r).2.record
        (({ s₁ with storage } : Session).keepRecord r).1 = r := by
      rw [← record_view, view_keepRecord (s := { s₁ with storage }) hnone]
      exact View.record_enroll_new _ r
    exact h.store (he home r.pid _ r hcached rfl (by rw [hrecord])) stored

theorem storage_commit (s : Session) (h : Handle) (p : Properties) :
    (s.commit h p).storage = s.storage :=
  (announce_sameButMarks (s.change h fun r => r.commit p) .updated h).storage

theorem update_obeys (hv : s.view.Filed) (hb : rule.AdmitsReserved s.bindings.id)
    (h : s.storage.Obeys rule) (pid : String) (p : Properties)
    (he : (s.update pid p).2.Enters rule) : (s.update pid p).2.storage.Obeys rule := by
  obtain ⟨hreq, hcached⟩ := s.require_strokes .unstored pid
  have hcourse := s.updating pid p
  generalize s.update pid p = result at hcourse he ⊢
  cases hcourse with
  | refused looked =>
    rcases looked with rfl | rfl
    · exact h
    · exact hreq.obeys hb h
  | @unjoined h₀ s₁ s₂ e required unjoined =>
    rw [required] at hreq
    have hjoin : Strokes .unstored s₁ (s₁.join h₀).2 :=
      join_strokes (hreq.filed hv) fun _ _ => trivial
    rw [unjoined] at hjoin
    exact (hreq.trans hjoin).obeys hb h
  | @unstored h₀ s₁ s₂ e required joined =>
    rw [required] at hreq
    have hjoin : Strokes .unstored s₁ (s₁.join h₀).2 :=
      join_strokes (hreq.filed hv) fun _ _ => trivial
    rw [joined] at hjoin
    exact (hreq.trans hjoin).obeys hb h
  | @updated h₀ s₁ s₂ storage required joined stored =>
    rw [required] at hreq hcached
    have hjoin : Strokes .unstored s₁ (s₁.join h₀).2 :=
      join_strokes (hreq.filed hv) fun _ _ => trivial
    rw [joined] at hjoin
    -- the record is still cached, and a commit leaves its identity alone
    have hv₁ := hreq.filed hv
    obtain ⟨hlt, hpid, -⟩ := hv₁.held pid h₀ (hcached h₀ rfl)
    have hextends := ((closed_of_filed hv₁).join h₀).1.extends
    rw [joined] at hextends
    have hcached₂ : s₂.view.cached.get? pid = some h₀ := hextends.cached pid h₀ (hcached h₀ rfl)
    have hpid₂ : (s₂.record h₀).pid = pid := (hjoin.follows.pid h₀ hlt).trans hpid
    rw [← Record.persisted_commit] at stored
    dsimp only at he ⊢
    rw [storage_commit]
    have hview := view_commit ({ s₂ with storage } : Session) h₀ p
    have hfactory : ((({ s₂ with storage } : Session).commit h₀ p).record h₀).factoryPid =
        (s₂.record h₀).factoryPid := by
      rw [← record_view, hview, View.record_enqueue]
      exact s₂.view.record_change_of_eq (f := fun r => r.commit p) (fun _ => rfl) h₀ h₀
    refine ((hreq.trans hjoin).obeys hb h).store
      (he _ pid h₀ ((s₂.record h₀).commit p) ?_ hpid₂ hfactory.symm) stored
    rw [hview, View.enqueue_eq]
    exact hcached₂

theorem delete_obeys (hv : s.view.Filed) (hb : rule.AdmitsReserved s.bindings.id)
    (h : s.storage.Obeys rule) (pid : String) : (s.delete pid).2.storage.Obeys rule := by
  obtain ⟨hreq, hcached⟩ := s.require_strokes .unstored pid
  have hcourse := s.deleting pid
  generalize s.delete pid = result at hcourse ⊢
  cases hcourse with
  | refused looked =>
    rcases looked with rfl | rfl
    · exact h
    · exact hreq.obeys hb h
  | @deleted h₀ s₁ storage running required stored =>
    rw [required] at hreq hcached
    have hv₁ := hreq.filed hv
    have hdiscard : Strokes .unstored { s₁ with storage }
        (({ s₁ with storage } : Session).discard h₀ pid) :=
      discard_strokes (s := { s₁ with storage }) hv₁ (hcached h₀ rfl) trivial fun _ _ => trivial
    exact hdiscard.obeys (hreq.id ▸ hb) ((hreq.obeys hb h).delete stored)

theorem setLocation_obeys (hv : s.view.Filed) (hb : rule.AdmitsReserved s.bindings.id)
    (h : s.storage.Obeys rule) (pid : String) (location : Option String)
    (he : (s.setLocation pid location).2.Enters rule) :
    (s.setLocation pid location).2.storage.Obeys rule := by
  obtain ⟨hreq, hcached⟩ := s.require_strokes .unstored pid
  have hcourse := s.settling pid location
  generalize s.setLocation pid location = result at hcourse he ⊢
  cases hcourse with
  | refused looked =>
    rcases looked with rfl | rfl
    · exact h
    · exact hreq.obeys hb h
  | @settled h₀ s₁ storage required stored =>
    rw [required] at hreq hcached
    have hv₁ := hreq.filed hv
    have hcached₁ : s₁.view.cached.get? pid = some h₀ := hcached h₀ rfl
    have hsettle : Strokes .unstored { s₁ with storage }
        (({ s₁ with storage } : Session).resettle h₀ pid location) :=
      resettle_strokes (s := { s₁ with storage }) hv₁ hcached₁ trivial (fun _ _ => trivial) location
    refine hsettle.obeys (hreq.id ▸ hb) ?_
    unfold storeLocation at stored
    dsimp only at stored he
    split at stored
    · cases stored
      exact hreq.obeys hb h
    · obtain ⟨hlt, hpid, -⟩ := hv₁.held pid h₀ hcached₁
      have hfactory := hsettle.follows.factoryPid h₀ hlt
      refine (hreq.obeys hb h).store (he _ pid h₀ ((s₁.record h₀).relocate location) ?_ hpid
        hfactory.symm) stored
      obtain ⟨waiting, hview⟩ := view_resettle ({ s₁ with storage } : Session) h₀ pid location
      rw [hview]
      exact hcached₁

/-! ### Keeping to a rule -/

theorem runNotices_sameButMarks (n : Nat) (s : Session) : s.SameButMarks (runNotices n s) := by
  induction n generalizing s with
  | zero => exact .refl s
  | succ n ih => exact s.runNotice_sameButMarks.trans (ih s.runNotice)

/-- What is stored keeps to a rule that lets pass whatever is entered beside the records. -/
structure Abides (rule : EntryRule) (s : Session) : Prop where
  admitsReserved : rule.AdmitsReserved s.bindings.id
  obeys : s.storage.Obeys rule

namespace Abides

theorem of_same (hk : s.Abides rule) (hid : s'.bindings.id = s.bindings.id)
    (hst : s'.storage = s.storage) : s'.Abides rule :=
  ⟨hid ▸ hk.admitsReserved, hst ▸ hk.obeys⟩

theorem sameButMarks (hk : s.Abides rule) (ha : s.SameButMarks s') : s'.Abides rule :=
  hk.of_same (by rw [ha.bindings]) ha.storage

theorem strokes (hk : s.Abides rule) (hs : Strokes .unstored s s') : s'.Abides rule :=
  ⟨hs.id ▸ hk.admitsReserved, hs.obeys hk.admitsReserved hk.obeys⟩

theorem foldl {α : Type} {f : Session → α → Session}
    (hf : ∀ (s : Session) (a : α), s.Abides rule → (f s a).Abides rule) (l : List α)
    (hk : s.Abides rule) : (l.foldl f s).Abides rule := by
  induction l generalizing s with
  | nil => exact hk
  | cons a rest ih => exact ih (hf s a hk)

/-! ### Tasks -/

theorem bind (hk : s.Abides rule) (h : Handle) (location : String) :
    (s.bind h location).Abides rule := by
  unfold Session.bind
  split
  · exact hk
  · refine Abides.sameButMarks ?_ (announce_sameButMarks _ _ _)
    have hid := (s.assignBinding_sameStored (s.record h).pid (some location)).id
    exact ⟨hid.symm ▸ hk.admitsReserved, hk.obeys.put hk.admitsReserved _ _⟩

theorem bindFirst (hk : s.Abides rule) (h : Handle) (targets : List Consumer) :
    (s.bindFirst h targets).Abides rule := by
  unfold Session.bindFirst
  split
  · exact hk
  · exact hk.bind h _

theorem introduce (hk : s.Abides rule) (h : Handle) (t : Target) (c : Consumer) (g : Nat)
    (p : Properties) : (s.introduce h t c g p).Abides rule := by
  unfold Session.introduce
  dsimp only
  split
  · exact hk
  · split
    · exact hk.sameButMarks (s.count_sameButMarks _)
    · split
      · exact (hk.bind h _).sameButMarks (serve_sameButMarks _ _ _ _ _ _)
      · exact hk.sameButMarks (s.count_sameButMarks _)

theorem introduceEmpty (hk : s.Abides rule) (h : Handle) (pid : String) (c : Consumer) :
    (s.introduceEmpty h pid c).Abides rule := by
  unfold Session.introduceEmpty
  dsimp only
  split
  · exact hk
  · split
    · exact (hk.bind h _).sameButMarks (greet_sameButMarks _ _ _ _)
    · exact hk.sameButMarks (s.count_sameButMarks _)

theorem expel (hk : s.Abides rule) (pid f : String) : (s.expel pid f).Abides rule := by
  have hf := hk.strokes (s.factory_strokes .unstored f).1
  unfold Session.expel
  split
  · next he =>
    rw [he] at hf
    exact hf
  · next r s₁ he =>
    rw [he] at hf
    split
    · dsimp only
      split
      · next storage hst =>
        exact ⟨hf.admitsReserved, hf.obeys.store (hf.admitsReserved.rosters _ _) hst⟩
      · exact ⟨hf.admitsReserved, hf.obeys⟩
    · exact hf

/-- **A task** enters nothing but bindings and rosters, whatever it speaks of. -/
theorem perform (hk : s.Abides rule) (t : Task) : (s.perform t).Abides rule := by
  cases t with
  | deliver h g p =>
    show (s.deliver h g p).Abides rule
    unfold deliver
    dsimp only
    split
    · exact hk
    · split
      · exact hk.sameButMarks (s.count_sameButMarks _)
      · exact ((hk.bindFirst h _).sameButMarks
          (foldl_sameButMarks (fun s' c => s'.offer_sameButMarks h _ _ g p c) _ _)).sameButMarks
            (change_sameButMarks _ (fun r => r.sameContent_advance _) (fun _ => rfl) _)
  | retract h owner =>
    have hloop := hk.sameButMarks (foldl_sameButMarks
      (fun s' c => s'.retractFrom_sameButMarks h (s.record h).target owner c)
      ((s.record h).target.resolve s.directory) s)
    show (s.retract h owner).Abides rule
    unfold retract
    dsimp only
    split
    · exact hloop.expel _ _
    · exact hloop
  | relocate h former =>
    show (s.relocate h former).Abides rule
    unfold relocate
    dsimp only
    split
    · exact hk
    · exact (hk.bindFirst h _).sameButMarks
        (foldl_sameButMarks (fun s' c => s'.reconsider_sameButMarks h _ _ _ c) _ _)
  | attach c pid snapshot =>
    show (s.attach c pid snapshot).Abides rule
    unfold attach
    split
    · exact hk
    · split
      · exact hk.sameButMarks (s.greet_sameButMarks pid c none)
      · exact hk.introduce _ _ c _ _
      · exact hk.introduceEmpty _ pid c
  | attachFactory c f members =>
    show (s.attachFactory c members).Abides rule
    unfold attachFactory
    split
    · exact hk
    · refine hk.foldl (fun s' m hk' => ?_) members
      unfold attachMember
      split
      · exact hk'.introduce _ _ c _ _
      · exact hk'

theorem runUpdate (hk : s.Abides rule) : s.runUpdate.Abides rule := by
  unfold Session.runUpdate
  split
  · exact hk
  · exact (hk.sameButMarks s.pop_sameButMarks).perform _

theorem runUpdates (hk : s.Abides rule) (n : Nat) : (Session.runUpdates n s).Abides rule := by
  induction n generalizing s with
  | zero => exact hk
  | succ n ih => exact ih hk.runUpdate

theorem shutdown (hk : s.Abides rule) : s.shutdown.Abides rule := by
  unfold Session.shutdown
  split
  · exact hk
  · have hclosed : ({ s with updates := s.updates.close } : Session).Abides rule :=
      ⟨hk.admitsReserved, hk.obeys⟩
    have hrun := hclosed.runUpdates s.updates.waiting.length
    generalize hs₁ : Session.runUpdates s.updates.waiting.length _ = s₁ at hrun
    have hclosed₁ : ({ s₁ with notices := s₁.notices.close } : Session).Abides rule :=
      ⟨hrun.admitsReserved, hrun.obeys⟩
    have hnotices := hclosed₁.sameButMarks (runNotices_sameButMarks s₁.notices.waiting.length _)
    subst hs₁
    exact ⟨hnotices.admitsReserved, hnotices.obeys⟩

/-! ### Steps and runs -/

/-- Whatever happens to a session, what is stored keeps to the rule, if what the cached records come
to does and nobody else writes to a backend. -/
theorem step (hk : s.Abides rule) (hv : s.view.Filed) {a : Action} (hspares : a.SparesStorage)
    (he : (s.step a).2.Enters rule) : (s.step a).2.Abides rule := by
  refine ⟨(step_id hv a).symm ▸ hk.admitsReserved, ?_⟩
  by_cases hw : Within .unstored a ∧ a ≠ .runUpdate
  · exact (occurrence_strokes hv Scope.unstored_wide hw.1 hw.2).obeys hk.admitsReserved hk.obeys
  cases a with
  | getOrCreate pid location => exact getOrCreate_obeys hk.admitsReserved hk.obeys pid location he
  | update pid p => exact update_obeys hv hk.admitsReserved hk.obeys pid p he
  | delete pid => exact delete_obeys hv hk.admitsReserved hk.obeys pid
  | setLocation pid location =>
    exact setLocation_obeys hv hk.admitsReserved hk.obeys pid location he
  | runUpdate => exact hk.runUpdate.obeys
  | shutdown => exact hk.shutdown.obeys
  | submit t => exact hk.obeys
  | around action =>
    cases action with
    | backend name change =>
      intro name' id d hd
      refine hk.obeys name' id d ?_
      rw [← hd]
      show _ = (((s.storage.withBackend name (change (s.storage.backend name))).backend
        name').dictionaries.get? id)
      rw [Storage.backend_withBackend, Storage.held]
      split
      · next hn => rw [hspares, hn]
      · rfl
    | _ => exact absurd ⟨⟨fun _ => by simp, by simp, by simp [Action.stores], by simp⟩, by simp⟩ hw
  | _ => exact absurd ⟨⟨fun _ => by simp, by simp, by simp [Action.stores], by simp⟩, by simp⟩ hw

/-- **Entries keep to a rule** throughout a session, if it lets pass whatever a record may come to
under its own pid. -/
theorem run (hk : s.Abides rule) (hv : s.view.Filed) (hrecords : ∀ s : Session, s.Enters rule)
    {actions : List Action} (hspares : ∀ a ∈ actions, a.SparesStorage) :
    (s.run actions).Abides rule := by
  induction actions generalizing s with
  | nil => exact hk
  | cons a rest ih =>
    exact ih (hk.step hv (hspares a List.mem_cons_self) (hrecords _)) ((step_deal hv a).filed hv)
      fun b hb => hspares b (List.mem_cons_of_mem a hb)

end Abides
/-! ### The beginning -/

theorem held_ownStorage (name id : String) : ownStorage.held name id = none := by
  have hempty : (ownStorage.backend name).dictionaries = .empty := by
    rw [ownStorage, Storage.backend_withBackend]
    split <;> rfl
  rw [Storage.held, hempty, Table.get?_empty]

/-- Loading enters nothing but bindings into the storage that the manager uses. -/
theorem start_obeys_loaded {w : World} {settings : Settings} (hs : start w settings = .ok s)
    (hb : rule.AdmitsReserved settings.bindingsId)
    (hused : (if w.storage.chain.isEmpty then ownStorage else w.storage).Obeys rule) :
    s.storage.Obeys rule := by
  obtain ⟨home, bindings, storage, -, hload, rfl⟩ := start_eq hs
  have hloaded := hused.load hb home w.directory.installedLocations
  rw [hload] at hloaded
  exact hloaded

/-- A manager that starts enters nothing but its bindings. -/
theorem start_obeys {w : World} {settings : Settings} (hs : start w settings = .ok s)
    (hb : rule.AdmitsReserved settings.bindingsId) (hw : w.storage.Obeys rule) :
    s.storage.Obeys rule := by
  have hown : ownStorage.Obeys rule := by
    intro name id d hd
    rw [held_ownStorage] at hd
    cases hd
  refine start_obeys_loaded hs hb ?_
  split <;> assumption

end Session
end Provisioning
