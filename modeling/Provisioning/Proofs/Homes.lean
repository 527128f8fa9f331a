import Provisioning.Proofs.Listing
import Provisioning.Proofs.Lodgings

/-! # One home per configuration

Over any chain of backends, a pid that is stored in one backend at most is so throughout a session.
What a call stores of its record goes to where the pid is stored, or to the primary if it is stored
nowhere; so a deletion leaves nothing behind that a look-up or a listing could come upon later.

A member that was never updated is not stored, and neither is its location when it is set.
-/
namespace Provisioning

namespace Storage

variable {st : Storage} {pid home : String}

/-- A pid that is stored in one backend of the chain at most. -/
def Sole (st : Storage) (pid : String) : Prop :=
  ∀ l ∈ st.chain, ∀ l' ∈ st.chain, st.held l.backend pid ≠ none → st.held l'.backend pid ≠ none →
    l.backend = l'.backend

/-- A pid that is stored in one backend at most, and is carried by nothing that is stored under
another id. -/
structure Housed (st : Storage) (pid : String) : Prop where
  sole : st.Sole pid
  labelled : ∀ l ∈ st.chain, ∀ id d, st.held l.backend id = some d →
    Properties.text? d Properties.pidKey = some pid → id = pid

/-- Whatever is stored under a pid carries it. -/
def Carries (st : Storage) (pid : String) : Prop :=
  ∀ l ∈ st.chain, ∀ d, st.held l.backend pid = some d →
    Properties.text? d Properties.pidKey = some pid

theorem SameStored.firstHaving {bindingsId : String} {st' : Storage}
    (hb : st.SameStored bindingsId st')
    (hfree : ¬Reserved bindingsId pid) : st'.firstHaving pid = st.firstHaving pid := by
  simp only [firstHaving_eq, hb.chain, hb.others _ pid hfree]

theorem SameStored.seats {bindingsId : String} {st' : Storage} (hb : st.SameStored bindingsId st')
    (hfree : ¬Reserved bindingsId pid) (h : st'.Seats pid home) : st.Seats pid home := by
  unfold Seats at h ⊢
  rwa [hb.firstHaving hfree, primary_eq_ok_iff, hb.chain, ← primary_eq_ok_iff] at h

end Storage

/-- The rule that in the backends of a chain nothing carries a pid but what stands under it. -/
def EntryRule.labelsOf (c : Chain) (pid : String) : EntryRule := fun name id d =>
  (∃ l ∈ c, l.backend = name) → Properties.text? d Properties.pidKey = some pid → id = pid

theorem EntryRule.admitsReserved_labelsOf (c : Chain) (pid bindingsId : String) :
    (EntryRule.labelsOf c pid).AdmitsReserved bindingsId where
  bindings := fun name pairs _ htext =>
    ((EntryRule.admitsReserved_labels bindingsId).bindings name pairs pid htext).symm
  rosters := fun name r _ htext =>
    ((EntryRule.admitsReserved_labels bindingsId).rosters name r pid htext).symm

/-- A member that was never updated. -/
def Record.isDraft (r : Record) : Bool := r.factoryPid.isSome && r.isNew

namespace Session

variable {s s' : Session} {pid : String} {made : Prop}

/-! ### What is to hold at any moment -/

/-- What a record comes to is written to the seat of its pid, and nowhere else. -/
structure WritesHome (s : Session) (pid : String) (h : Handle) (s' : Session) : Prop where
  cached : s'.cache.record? pid = some h
  seat : s.storage.Seats pid (s'.record h).home
  held : ∀ name, s'.storage.held name pid =
    if name = (s'.record h).home then some (s'.record h).persisted else s.storage.held name pid

/-- What a record comes to is written to the seat of its pid, unless it is a member that was never
updated; of one that is stored nowhere, nothing is stored. -/
structure Resettles (s : Session) (pid : String) (h : Handle) (s' : Session) : Prop where
  cached : s'.cache.record? pid = some h
  writes : (s'.record h).isDraft = false → s.WritesHome pid h s'
  draft : (s'.record h).isDraft = true → s.storage.firstHaving pid = none →
    s'.storage.firstHaving pid = none

/-- Neither a look-up nor a listing shows a pid, and there are answers as long as the manager is
running and the backends can be listed. -/
structure Lacks (s : Session) (pid : String) : Prop where
  existing : (s.step (.getExisting pid)).1 =
    if s.isRunning then .record none else .refused .shutDown
  unlisted : ∀ rs, s.list none = .ok rs → ∀ r ∈ rs, r.pid ≠ pid
  listed : s.isRunning = true →
    (∀ l ∈ s.storage.chain, (s.storage.backend l.backend).unlistable = false) →
      ∃ rs, s.list none = .ok rs

/-- One home: the pid is stored in one backend at most, where its record has its home; updates and
relocations are written there; and once it is deleted it is gone, until a record of it is made. -/
structure OneHome (s : Session) (pid : String) : Prop where
  sole : s.storage.Sole pid
  seated : ∀ h, s.cache.record? pid = some h → s.storage.Seats pid (s.record h).home
  update : ∀ p g, (s.step (.update pid p)).1 = .generation g →
    ∃ h, s.WritesHome pid h (s.step (.update pid p)).2
  relocate : ∀ location, (s.step (.setLocation pid location)).1 = .done →
    ∃ h, s.Resettles pid h (s.step (.setLocation pid location)).2
  gone : (s.step (.delete pid)).1 = .done → ∀ more : List Action,
    (∀ a ∈ more, a.SparesStorage) → ¬(s.step (.delete pid)).2.YieldsAlong pid more →
      ((s.step (.delete pid)).2.run more).Lacks pid

/-! ### Looking for what is not there -/

theorem configuration_vacant (hvacant : (s.lodging pid).Vacant s.storage.chain) :
    s.configuration pid = (.ok none, s) := by
  have hcached : s.cache.record? pid = none := Option.map_eq_none_iff.mp hvacant.uncached
  have hfirst : s.storage.firstHaving pid = none := by
    rw [← first?_lodging]
    exact Lodging.first?_eq_none_iff.mpr hvacant.unheld
  unfold configuration
  rw [hcached, hfirst]

theorem getExisting_vacant (hvacant : (s.lodging pid).Vacant s.storage.chain) :
    (s.step (.getExisting pid)).1 =
      if s.isRunning then .record none else .refused .shutDown := by
  show Answer.ofResult .record (s.getExisting pid).1 = _
  unfold getExisting
  rw [configuration_vacant hvacant]
  cases s.isRunning <;> rfl

/-- What each step keeps is kept by a loop that comes to its end. -/
theorem foldlM_keeps {α β ε : Type} {f : β → α → Except ε β} {P : β → Prop} {l : List α}
    (hf : ∀ b, ∀ a ∈ l, P b → ∀ b', f b a = .ok b' → P b') {b b' : β} (hb : P b)
    (h : l.foldlM f b = .ok b') : P b' := by
  induction l generalizing b with
  | nil =>
    cases h
    exact hb
  | cons a rest ih =>
    rw [List.foldlM_cons] at h
    cases hone : f b a with
    | error e =>
      rw [hone] at h
      cases h
    | ok b₁ =>
      rw [hone] at h
      exact ih (fun b a ha => hf b a (List.mem_cons_of_mem _ ha))
        (hf b a List.mem_cons_self hb b₁ hone) h

/-- Whatever is found is found by the pid that a dictionary carries. -/
theorem survey_unlisted (hv : s.view.Filed) {home : String} {d : Properties} {f f' : Findings}
    (hd : Properties.text? d Properties.pidKey ≠ some pid) (hf : ∀ r ∈ f.found, r.pid ≠ pid)
    (h : s.survey none home f d = .ok f') : ∀ r ∈ f'.found, r.pid ≠ pid := by
  rcases survey_cases hv none home f d with ⟨he, -⟩ | ⟨p, r, he, -, hp, -, -, hpid⟩
  · cases he.symm.trans h
    exact hf
  · cases he.symm.trans h
    have hr : r.pid ≠ pid := by
      rintro rfl
      exact hd (hpid.symm ▸ hp)
    dsimp only
    split
    · intro r' hr'
      rcases List.mem_append.mp hr' with hold | hnew
      · exact hf r' hold
      · exact List.mem_singleton.mp hnew ▸ hr
    · exact hf

theorem surveyBackend_unlisted (hv : s.view.Filed) {l : Link} {f f' : Findings}
    (hd : ∀ id d, s.storage.held l.backend id = some d →
      Properties.text? d Properties.pidKey ≠ some pid)
    (hf : ∀ r ∈ f.found, r.pid ≠ pid) (h : s.surveyBackend none f l = .ok f') :
    ∀ r ∈ f'.found, r.pid ≠ pid := by
  unfold surveyBackend at h
  cases hds : (s.storage.backend l.backend).listAll with
  | error e =>
    rw [hds] at h
    cases h
  | ok ds =>
    rw [hds] at h
    have hheld : ∀ d ∈ ds, ∃ id, s.storage.held l.backend id = some d := by
      unfold Backend.listAll at hds
      split at hds
      · cases hds
      · cases hds
        intro d hmem
        obtain ⟨⟨id, d'⟩, he, rfl⟩ := List.mem_map.mp hmem
        rw [Backend.listing, Ranked.mem_sort, ← Table.get?_eq_some_iff] at he
        exact ⟨id, he⟩
    refine foldlM_keeps (P := fun f => ∀ r ∈ f.found, r.pid ≠ pid) (fun f d hmem hf f' hone => ?_)
      hf h
    obtain ⟨id, hid⟩ := hheld d hmem
    exact survey_unlisted hv (hd id d hid) hf hone

theorem list_unlisted (hv : s.view.Filed)
    (hd : ∀ l ∈ s.storage.chain, ∀ id d, s.storage.held l.backend id = some d →
      Properties.text? d Properties.pidKey ≠ some pid)
    {rs : List Record} (h : s.list none = .ok rs) : ∀ r ∈ rs, r.pid ≠ pid := by
  have hrun : s.isRunning = true := by
    by_contra hstopped
    unfold list at h
    rw [Bool.not_eq_true] at hstopped
    rw [hstopped] at h
    cases h
  have hparsed := list_parsed hrun (Option.mapM_none (f := Filter.parse))
  cases hf : s.storage.chain.foldlM (s.surveyBackend none) {} with
  | error e =>
    rw [hparsed, hf] at h
    cases h
  | ok f =>
    rw [hparsed, hf] at h
    cases h
    have hfound : ∀ r ∈ f.found, r.pid ≠ pid :=
      foldlM_keeps (P := fun f => ∀ r ∈ f.found, r.pid ≠ pid)
        (fun f l hl hf f' hone => surveyBackend_unlisted hv (hd l hl) hf hone)
        (fun r hr => absurd hr List.not_mem_nil) hf
    intro r hr
    exact hfound r (Ranked.mem_sort.mp hr)

theorem exists_list (hv : s.view.Filed) (hrun : s.isRunning = true)
    (hlist : ∀ l ∈ s.storage.chain, (s.storage.backend l.backend).unlistable = false) :
    ∃ rs, s.list none = .ok rs := by
  obtain ⟨f, hf, -⟩ := foldlM_survey hv none s.storage.inventory {}
  have hbackends : s.storage.chain.foldlM (s.surveyBackend none) {} = .ok f := by
    rw [foldlM_surveyBackend none _ hlist]
    exact hf
  exact ⟨_, by rw [list_parsed hrun (Option.mapM_none (f := Filter.parse)), hbackends]; rfl⟩

/-! ### What is kept -/

theorem configuration_sameStored (s : Session) (pid : String) :
    s.SameStored (s.configuration pid).2 := by
  have hcourse := s.finding pid
  generalize s.configuration pid = result at hcourse ⊢
  cases hcourse with
  | cached | failed | missing => exact .refl s
  | loaded => exact ⟨rfl, .refl _⟩

theorem require_sameStored (s : Session) (pid : String) : s.SameStored (s.require pid).2 :=
  (s.require_spec pid).1 ▸ s.configuration_sameStored pid

theorem housed_ownStorage (pid : String) : ownStorage.Housed pid where
  sole := fun l _ _ _ hheld => absurd (held_ownStorage l.backend pid) hheld
  labelled := fun l _ id _ hheld => nomatch (held_ownStorage l.backend id).symm.trans hheld

/-- A session in which a pid has one place at most.  If records of it may be made, what is stored
under it carries it. -/
structure Houses (s : Session) (pid : String) (made : Prop) : Prop where
  filed : s.view.Filed
  free : ¬Storage.Reserved s.bindings.id pid
  settled : (s.lodging pid).Settled s.storage.chain pid made
  labels : s.Abides (.labelsOf s.storage.chain pid)

namespace Houses

/-- What is stored of a record carries the pid of the record. -/
theorem enters_labelsOf (c : Chain) (pid : String) (s : Session) :
    s.Enters (.labelsOf c pid) := by
  intro name id h r _ hpid _ _ htext
  rw [Record.pid_persisted, Option.some_inj] at htext
  exact hpid.symm.trans htext

theorem run (hs : s.Houses pid made) {actions : List Action}
    (hspares : ∀ a ∈ actions, a.SparesStorage) (hmade : s.YieldsAlong pid actions → made) :
    (s.run actions).Houses pid made := by
  have hpassage := run_passage hs.free hs.filed hspares
  refine ⟨run_filed hs.filed actions, hpassage.id.symm ▸ hs.free,
    (hpassage.mono hmade).settled hs.settled, ?_⟩
  rw [hpassage.chain]
  exact hs.labels.run hs.filed (enters_labelsOf _ pid) hspares

/-! ### Writing -/

/-- A cached record is changed to what was stored of it before. -/
theorem writes (hs : s.Houses pid made) {s₁ : Session} {h : Handle} (hb : s.SameStored s₁)
    (hv : s₁.view.Filed) (hpassage : Passage pid made s s₁) (hc : s₁.view.cached.get? pid = some h)
    {storage : Storage} {f : Record → Record} (hhome : ∀ r, (f r).home = r.home)
    (hst : s₁.storage.store (s₁.record h).home pid (f (s₁.record h)).persisted = .ok storage)
    (hb' : ({ s₁ with storage } : Session).SameStored s')
    (hview : ∃ waiting, s'.view = { s₁.view.change h f with waiting }) :
    s.WritesHome pid h s' := by
  obtain ⟨waiting, hview⟩ := hview
  have hrecord : s'.record h = f (s₁.record h) := by
    rw [← record_view, hview]
    exact s₁.view.record_change_self (hv.held pid h hc).1 f
  have hseat := (hpassage.settled hs.settled).seated _ (home?_of_cached hc)
  rw [seats_lodging] at hseat
  refine ⟨?_, ?_, fun name => ?_⟩
  · show s'.view.cached.get? pid = some h
    rw [hview]
    exact hc
  · rw [hrecord, hhome]
    exact hb.storage.seats hs.free hseat
  · have hfree : ¬Storage.Reserved s₁.bindings.id pid := hb.id.symm ▸ hs.free
    rw [hrecord, hhome, hb'.storage.others name pid hfree, Storage.held_store hst,
      hb.storage.others name pid hs.free]
    simp only [and_true]

theorem update (hs : s.Houses pid made) {p : Properties} {g : Nat}
    (h : (s.step (.update pid p)).1 = .generation g) :
    ∃ h, s.WritesHome pid h (s.step (.update pid p)).2 := by
  have hcourse := s.updating pid p
  change Answer.ofResult .generation (s.update pid p).1 = _ at h
  show ∃ h, s.WritesHome pid h (s.update pid p).2
  generalize s.update pid p = result at hcourse h ⊢
  cases hcourse with
  | refused | unjoined | unstored => cases h
  | @updated i s₁ s₂ storage required joined stored =>
    obtain ⟨hc, hv₂⟩ := joined_cached hs.filed required joined
    have hsameStored := s.require_sameStored pid
    have hrequire : Passage pid made s (s.require pid).2 := require_passage hs.filed pid
    rw [required] at hsameStored hrequire
    have hjoin := s₁.join_unmoved i
    rw [joined] at hjoin
    have hpassage := hrequire.trans (hjoin.passage (hsameStored.id.symm ▸ hs.free))
    rw [← Record.persisted_commit] at stored
    exact ⟨i, hs.writes (hsameStored.trans hjoin.toSameStored) hv₂ hpassage hc
      (f := fun r => r.commit p)
      (fun _ => rfl) stored (commit_sameStored _ i p) (commit_change { s₂ with storage } i p)⟩

theorem relocate (hs : s.Houses pid made) {location : Option String}
    (h : (s.step (.setLocation pid location)).1 = .done) :
    ∃ h, s.Resettles pid h (s.step (.setLocation pid location)).2 := by
  obtain ⟨hstrokes, hcached⟩ := s.require_strokes .all pid
  have hcourse := s.settling pid location
  change Answer.ofResult (fun _ => .done) (s.setLocation pid location).1 = _ at h
  show ∃ h, s.Resettles pid h (s.setLocation pid location).2
  generalize s.setLocation pid location = result at hcourse h ⊢
  cases hcourse with
  | refused => cases h
  | @settled i s₁ storage required stored =>
    have hsameStored := s.require_sameStored pid
    have hrequire : Passage pid made s (s.require pid).2 := require_passage hs.filed pid
    rw [required] at hsameStored hrequire hstrokes hcached
    have hc : s₁.view.cached.get? pid = some i := hcached i rfl
    have hv₁ : s₁.view.Filed := hstrokes.filed hs.filed
    have hview := view_resettle { s₁ with storage } i pid location
    have hresettled := resettle_sameStored { s₁ with storage } i pid location
    generalize ({ s₁ with storage } : Session).resettle i pid location = s' at hview hresettled
    have hrecord : s'.record i = (s₁.record i).relocate location := by
      obtain ⟨waiting, hview⟩ := hview
      rw [← record_view, hview]
      exact s₁.view.record_change_self (hv₁.held pid i hc).1 fun r => r.relocate location
    refine ⟨i, ?_, fun hdraft => ?_, fun hdraft hfirst => ?_⟩
    · obtain ⟨waiting, hview⟩ := hview
      show s'.view.cached.get? pid = some i
      rw [hview]
      exact hc
    · -- whether a record is a draft does not depend on its location
      rw [hrecord] at hdraft
      have hold : ((s₁.record i).factoryPid.isSome && (s₁.record i).isNew) = false := hdraft
      simp only [storeLocation, hold, Bool.false_eq_true, if_false] at stored
      exact hs.writes hsameStored hv₁ hrequire hc (f := fun r => r.relocate location) (fun _ => rfl)
        stored hresettled hview
    · rw [hrecord] at hdraft
      have hold : ((s₁.record i).factoryPid.isSome && (s₁.record i).isNew) = true := hdraft
      simp only [storeLocation, hold, if_true] at stored
      cases stored
      rw [(hsameStored.trans hresettled).storage.firstHaving hs.free]
      exact hfirst

/-! ### Deleting -/

theorem delete (hs : s.Houses pid made) (h : (s.step (.delete pid)).1 = .done) :
    ((s.step (.delete pid)).2.lodging pid).Vacant (s.step (.delete pid)).2.storage.chain := by
  obtain ⟨hstrokes, hcached⟩ := s.require_strokes .all pid
  have hrequire : Passage pid made s (s.require pid).2 := require_passage hs.filed pid
  have hcourse := s.deleting pid
  change Answer.ofResult (fun _ => .done) (s.delete pid).1 = _ at h
  show ((s.delete pid).2.lodging pid).Vacant (s.delete pid).2.storage.chain
  generalize s.delete pid = result at hcourse h ⊢
  cases hcourse with
  | refused => cases h
  | @deleted i s₁ storage running required stored =>
    rw [required] at hrequire hstrokes hcached
    have hc : s₁.view.cached.get? pid = some i := hcached i rfl
    have hv₁ : s₁.view.Filed := hstrokes.filed hs.filed
    have hlodging := lodging_discard (hrequire.id.symm ▸ hs.free) hv₁ hc stored
    rw [if_pos rfl] at hlodging
    rw [hlodging, chain_discard stored]
    exact (hrequire.settled hs.settled).vacant (home?_of_cached hc)

/-- What has no place is neither found nor listed. -/
theorem lacks (hs : s.Houses pid made) (hvacant : (s.lodging pid).Vacant s.storage.chain) :
    s.Lacks pid where
  existing := getExisting_vacant hvacant
  unlisted := by
    refine fun rs => list_unlisted hs.filed fun l hl id d hheld htext => ?_
    obtain rfl := hs.labels.obeys l.backend id d hheld ⟨l, hl, rfl⟩ htext
    have hnone : s.storage.held l.backend id = none := hvacant.unheld l hl
    rw [hheld] at hnone
    cases hnone
  listed := exists_list hs.filed

theorem oneHome (hs : s.Houses pid made) : s.OneHome pid where
  sole := hs.settled.sole
  seated := by
    intro h hc
    exact seats_lodging.mp (hs.settled.seated _ (home?_of_cached hc))
  update := fun _ _ => hs.update
  relocate := fun _ => hs.relocate
  gone := by
    intro hdone more hspares hnone
    have hdeleted : (s.run [.delete pid]).Houses pid made :=
      hs.run (by simp [Action.SparesStorage]) (by simp [YieldsAlong, Yields])
    have hpassage := (run_passage hdeleted.free hdeleted.filed hspares).mono hnone
    exact (hdeleted.run hspares fun hm => (hnone hm).elim).lacks (hpassage.vacant (hs.delete hdone))

/-! ### The beginning -/

theorem start {w : World} {settings : Settings} (hs : start w settings = .ok s)
    (hfree : ¬Storage.Reserved settings.bindingsId pid) (hw : w.storage.Housed pid)
    (hcarries : made → w.storage.Carries pid) : s.Houses pid made := by
  obtain ⟨hid, hsameStored⟩ := start_storage hs
  have hloaded := start_obeys_loaded hs
    (EntryRule.admitsReserved_labelsOf s.storage.chain pid settings.bindingsId)
  obtain ⟨hhoused, hcarried⟩ :
      (if w.storage.chain.isEmpty then ownStorage else w.storage).Housed pid ∧
        (made → (if w.storage.chain.isEmpty then ownStorage else w.storage).Carries pid) := by
    split
    · exact ⟨housed_ownStorage pid, fun _ l _ d hd => nomatch (held_ownStorage _ _).symm.trans hd⟩
    · exact ⟨hw, hcarries⟩
  generalize (if w.storage.chain.isEmpty then ownStorage else w.storage) = used at *
  have hheld : ∀ name, s.storage.held name pid = used.held name pid := fun name =>
    hsameStored.others name pid hfree
  refine ⟨start_filed hs, hid.symm ▸ hfree, ⟨?_, fun hm => ?_, fun home hh => ?_⟩, ?_, ?_⟩
  · intro l hl l' hl' hl₁ hl₂
    rw [hsameStored.chain] at hl hl'
    refine hhoused.sole l hl l' hl' ?_ ?_
    · rwa [← hheld]
    · rwa [← hheld]
  · intro l hl d hd
    rw [hsameStored.chain] at hl
    exact hcarried hm l hl d ((hheld l.backend).symm.trans hd)
  · rw [home?_of_absent (by rw [start_view hs]; rfl)] at hh
    cases hh
  · exact EntryRule.admitsReserved_labelsOf _ pid _
  · refine hloaded fun name id d hd hname htext => ?_
    obtain ⟨l, hl, rfl⟩ := hname
    exact hhoused.labelled l (hsameStored.chain ▸ hl) id d hd htext

end Houses

/-- **One home.**  Over any chain of backends, at any time of a session in which nobody else writes
to them: a pid has one home if it is none of the ids of the manager itself, is stored in one backend
at most in the beginning, and is carried by nothing that is stored elsewhere.  If records of the pid
were made, what was stored under it has to carry it.  Writes may fail, and tasks of others may be
submitted. -/
theorem one_home_per_pid {w : World} {settings : Settings} (hs : start w settings = .ok s)
    (hfree : ¬Storage.Reserved settings.bindingsId pid) (hw : w.storage.Housed pid)
    {actions : List Action} (hspares : ∀ a ∈ actions, a.SparesStorage)
    (hcarries : s.YieldsAlong pid actions → w.storage.Carries pid) :
    (s.run actions).OneHome pid :=
  ((Houses.start hs hfree hw hcarries).run hspares id).oneHome

/-- A pid is stored in the backend of lower rank. -/
def tiered : Storage :=
  ((Storage.add {} 1 "front").add 0 "back").withBackend "back"
    { dictionaries := Table.empty.put "lamp" (leveled "lamp" "low") }

theorem held_tiered (name id : String) : tiered.held name id =
    if name = "back" ∧ id = "lamp" then some (leveled "lamp" "low") else none := by
  rw [tiered, Storage.held, Storage.backend_withBackend]
  by_cases hn : name = "back"
  · simp only [hn, if_true, true_and, Table.get?_put, Table.get?_empty]
  · rw [if_neg hn, if_neg fun h => hn h.1]
    rfl

/-- The record is got, its only backend fails for a while, and another record is made. -/
def visited : List Action :=
  [.getOrCreate "lamp" none, .around (.backend "back" fun b => { b with failing := true }),
    .update "lamp" .empty, .around (.backend "back" fun b => { b with failing := false }),
    .getOrCreate "fan" none]

/-- What is stored in the backend of lower rank is written there, and is gone when it is deleted. -/
theorem one_home_per_pid_tiered :
    ∃ s, start { storage := tiered } {} = .ok s ∧
      ¬Storage.Reserved ({} : Settings).bindingsId "lamp" ∧ tiered.Housed "lamp" ∧
      (∀ a ∈ visited, a.SparesStorage) ∧ s.YieldsAlong "lamp" visited ∧
      tiered.Carries "lamp" ∧
      (∃ h, (s.run visited).WritesHome "lamp" h
        ((s.run visited).step (.update "lamp" (Table.empty.put "level" (.text "high")))).2) ∧
      (∃ h, (s.run visited).Resettles "lamp" h
        ((s.run visited).step (.setLocation "lamp" (some "here"))).2) ∧
      (((s.run visited).step (.delete "lamp")).2.run [.update "fan" .empty]).Lacks "lamp" := by
  obtain ⟨s, hs⟩ : ∃ s, start { storage := tiered } {} = .ok s := ⟨_, rfl⟩
  have hfree : ¬Storage.Reserved ({} : Settings).bindingsId "lamp" :=
    Storage.not_reserved (by decide) (by decide)
  have hat : ∀ {name id d}, tiered.held name id = some d →
      (name = "back" ∧ id = "lamp") ∧ d = leveled "lamp" "low" := by
    intro name id d hd
    rw [held_tiered] at hd
    split at hd
    · next he => exact ⟨he, (Option.some.inj hd).symm⟩
    · cases hd
  have hhoused : tiered.Housed "lamp" := by
    refine ⟨fun l _ l' _ hl hl' => ?_, fun l _ id d hd _ => (hat hd).1.2⟩
    obtain ⟨d, hd⟩ := Option.ne_none_iff_exists'.mp hl
    obtain ⟨d', hd'⟩ := Option.ne_none_iff_exists'.mp hl'
    rw [(hat hd).1.1, (hat hd').1.1]
  have hcarries : tiered.Carries "lamp" := by
    intro l _ d hd
    rw [(hat hd).2]
    rfl
  have hspares : ∀ a ∈ visited, a.SparesStorage := by simp [visited, Action.SparesStorage]
  have hmakes : s.YieldsAlong "lamp" visited := by
    cases hs
    exact Or.inl ⟨0, rfl, rfl⟩
  have hhome := one_home_per_pid hs hfree hhoused hspares fun _ => hcarries
  refine ⟨s, hs, hfree, hhoused, hspares, hmakes, hcarries, ?_, ?_, ?_⟩
  · exact hhome.update _ 2 (by cases hs; rfl)
  · exact hhome.relocate _ (by cases hs; rfl)
  · exact hhome.gone (by cases hs; rfl) _ (by simp [Action.SparesStorage])
      (by simp [YieldsAlong, Yields])

/-- A member is made, and never updated. -/
def drafted : List Action := [.createMember "F" none ["F.0#"]]

/-- The location of a member that was never updated is set, and is written nowhere. -/
theorem draft_location_unwritten :
    ∃ s, start {} {} = .ok s ∧ ¬Storage.Reserved ({} : Settings).bindingsId "F.0#" ∧
      ({} : World).storage.Housed "F.0#" ∧ (∀ a ∈ drafted, a.SparesStorage) ∧
      ({} : World).storage.Carries "F.0#" ∧
      (∃ h, (s.run drafted).cache.record? "F.0#" = some h) ∧
      ((s.run drafted).step (.setLocation "F.0#" (some "L"))).1 = .done ∧
      ¬∃ h, (s.run drafted).WritesHome "F.0#" h
        ((s.run drafted).step (.setLocation "F.0#" (some "L"))).2 := by
  obtain ⟨s, hs⟩ : ∃ s, start {} {} = .ok s := ⟨_, rfl⟩
  have hfree : ¬Storage.Reserved ({} : Settings).bindingsId "F.0#" :=
    Storage.not_reserved (by decide) (by decide)
  have hspares : ∀ a ∈ drafted, a.SparesStorage := by simp [drafted, Action.SparesStorage]
  have hempty : ∀ l, l ∉ ({} : World).storage.chain := fun _ => List.not_mem_nil
  have hhoused : ({} : World).storage.Housed "F.0#" :=
    ⟨fun l hl => absurd hl (hempty l), fun l hl => absurd hl (hempty l)⟩
  refine ⟨s, hs, hfree, hhoused, hspares, fun l hl => absurd hl (hempty l),
    ⟨0, by cases hs; rfl⟩, by cases hs; rfl, ?_⟩
  have hall : ((s.run drafted).step (.setLocation "F.0#" (some "L"))).2.cache.record? "F.0#" =
        some 0 ∧
      (((s.run drafted).step (.setLocation "F.0#" (some "L"))).2.record 0).home = "" ∧
      ((s.run drafted).step (.setLocation "F.0#" (some "L"))).2.storage.held "" "F.0#" = none := by
    cases hs
    exact ⟨rfl, rfl, rfl⟩
  obtain ⟨hcached, hhome, hnone⟩ := hall
  rintro ⟨h, hwrites⟩
  obtain rfl : 0 = h := Option.some.inj (hcached.symm.trans hwrites.cached)
  have hheld := hwrites.held ""
  rw [hhome, if_pos rfl, hnone] at hheld
  cases hheld

end Session
end Provisioning
