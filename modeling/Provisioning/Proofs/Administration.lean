import Provisioning.Proofs.Calls
import Provisioning.Proofs.Lookups

/-! # What an administrative call does

Every administrative call looks things up, and three of them then change one record: its
properties, its standing or its location.  `Amendment` lists these changes, each with what the
look-ups before it made sure of and with the task that it queues.
-/
namespace Provisioning

open Relation (ReflTransGen)

namespace View

/-- The one change that a call makes. -/
inductive Amendment : View → View → Prop
  /-- New properties, which are on their way to the consumers; the record of a factory is a
  member of it by now. -/
  | commit {v : View} {h : Handle} {p : Properties}
    (cached : v.cached.get? (v.record h).pid = some h)
    (listed : ∀ f, (v.record h).factoryPid = some f → v.lists f (v.record h).pid = true) :
    Amendment v ((v.change h fun r => r.commit p).enqueue
      (.deliver h ((v.record h).counter + 1) ((v.record h).stamp p)))
  /-- A deletion: the record leaves the cache, and consumers lose it. -/
  | discard {v : View} {h : Handle} (cached : v.cached.get? (v.record h).pid = some h) :
    Amendment v (({ v.change h fun r => { r with deleted := true } with
      cached := v.cached.erase (v.record h).pid } : View).enqueue
        (.retract h (v.record h).owner))
  /-- A static location where the record is already, or where nobody owned it. -/
  | settle {v : View} {h : Handle} {location : Option String}
    (cached : v.cached.get? (v.record h).pid = some h)
    (kept : (v.record h).owner = location ∨ (v.record h).owner = none) :
    Amendment v (v.change h fun r => r.relocate location)
  /-- Another location, or none any more: consumers are reconsidered. -/
  | resettle {v : View} {h : Handle} {location : Option String}
    (cached : v.cached.get? (v.record h).pid = some h)
    (owned : (v.record h).owner.isSome = true) :
    Amendment v ((v.change h fun r => r.relocate location).enqueue
      (.relocate h (v.record h).owner))

/-- A change concerns one record and leaves its identity alone. -/
theorem Amendment.exists_change {v v' : View} (ha : Amendment v v') :
    ∃ h f, v.cached.get? (v.record h).pid = some h ∧
      v'.records = (v.change h f).records ∧ v'.rosters = v.rosters ∧
      (∀ r : Record, (f r).pid = r.pid ∧ (f r).factoryPid = r.factoryPid ∧
        (f r).home = r.home) ∧
      ((v'.cached = v.cached ∧ ∀ r : Record, (f r).deleted = r.deleted) ∨
        v'.cached = v.cached.erase (v.record h).pid) := by
  cases ha with
  | commit cached =>
    rw [enqueue_eq]
    exact ⟨_, _, cached, rfl, rfl, fun _ => ⟨rfl, rfl, rfl⟩, Or.inl ⟨rfl, fun _ => rfl⟩⟩
  | discard cached =>
    rw [enqueue_eq]
    exact ⟨_, _, cached, rfl, rfl, fun _ => ⟨rfl, rfl, rfl⟩, Or.inr rfl⟩
  | settle cached =>
    exact ⟨_, _, cached, rfl, rfl, fun _ => ⟨rfl, rfl, rfl⟩, Or.inl ⟨rfl, fun _ => rfl⟩⟩
  | resettle cached =>
    rw [enqueue_eq]
    exact ⟨_, _, cached, rfl, rfl, fun _ => ⟨rfl, rfl, rfl⟩, Or.inl ⟨rfl, fun _ => rfl⟩⟩

/-- No change moves a record to another backend. -/
theorem Amendment.home {v v' : View} (ha : Amendment v v') (i : Handle) :
    (v'.record i).home = (v.record i).home := by
  obtain ⟨h, f, -, hr, -, hid, -⟩ := ha.exists_change
  have hrec : v'.record i = (v.change h f).record i := by
    unfold record
    rw [hr]
  rw [hrec]
  exact v.record_change_of_eq (fun r => (hid r).2.2) h i

theorem Amendment.filed {v v' : View} (ha : Amendment v v') (hv : v.Filed) : v'.Filed := by
  obtain ⟨h, f, hcached, hr, ho, hid, hcase⟩ := ha.exists_change
  have hrec : ∀ i, v'.record i = (v.change h f).record i := by
    intro i
    unfold record
    rw [hr]
  have hlen : v'.records.length = v.records.length := by
    rw [hr, length_change]
  refine ⟨fun pid i hc => ?_, by rw [ho]; exact hv.titled, by rw [ho]; exact hv.distinct⟩
  rw [hlen, hrec, v.record_change_of_eq (q := Record.pid) fun r => (hid r).1]
  rcases hcase with ⟨hsame, hdel⟩ | herased
  · rw [hsame] at hc
    rw [v.record_change_of_eq (q := Record.deleted) hdel]
    exact hv.held pid i hc
  · -- only the record of the erased pid is deleted
    rw [herased, Table.get?_erase] at hc
    split at hc
    · cases hc
    · next hne =>
      obtain ⟨hlt, hpid, hdel⟩ := hv.held pid i hc
      have hi : i ≠ h := fun he => hne (by rw [← hpid, he])
      rw [record_change_ne _ hi]
      exact ⟨hlt, hpid, hdel⟩

theorem Filing.mono {strikes strikes' : String → String → Prop} {v v' : View}
    (h : ∀ f pid, strikes f pid → strikes' f pid) (hf : Filing strikes v v') :
    Filing strikes' v v' := by
  cases hf with
  | found unknown distinct => exact .found unknown distinct
  | revised known named distinct kept =>
    exact .revised known named distinct fun pid hc => (kept pid hc).imp_right (h _ pid)

end View

namespace Session

variable {admits : Record → Prop} {s : Session}

/-- What an administrative call comes to: look-ups, and at most one change after them. -/
structure Conduct (admits : Record → Prop) (s s' : Session) : Prop where
  amended : ∃ v, s.view.Lookups admits v ∧ (s'.view = v ∨ v.Amendment s'.view)
  closed : s'.Closed admits

theorem OnlyLooksUp.conduct {s' : Session} (h : OnlyLooksUp admits s s') : Conduct admits s s' :=
  ⟨⟨s'.view, h.lookups, Or.inl rfl⟩, h.closed⟩

/-! ### Calls that look things up -/

theorem Closed.factory (hs : s.Closed admits) (f : String) :
    OnlyLooksUp admits s (s.factory f).2 := by
  obtain ⟨hfil, -, -⟩ := s.factory_spec f fun _ _ => False
  have hl : s.view.Lookups admits (s.factory f).2.view :=
    ReflTransGen.mono (fun _ _ h => View.Lookup.file (h.mono fun _ _ => False.elim)) _ _ hfil
  refine ⟨hl, ?_⟩
  rcases s.factory_keeps f with he | ⟨r, he⟩
  · rw [he]
    exact hs
  · have hf := hl.filed hs.filed
    rw [he] at hf ⊢
    exact hs.of_gainsNoConfiguration hf (.refl _) rfl fun _ => rfl

/-- The roster that is found is cached under the pid of its factory. -/
theorem Closed.factory_ok (hs : s.Closed admits) {f : String} {r : Roster} {s₁ : Session}
    (found : s.factory f = (.ok r, s₁)) :
    OnlyLooksUp admits s s₁ ∧ s₁.view.rosters.get? f = some r ∧ r.factoryPid = f := by
  have he := hs.factory f
  obtain ⟨-, hok, -⟩ := s.factory_spec f fun _ _ => False
  rw [found] at he hok
  have hknown := hok r rfl
  exact ⟨he, hknown, he.closed.filed.titled f r hknown⟩

/-- The record that a call needs is cached when it is there. -/
theorem Closed.require (hs : s.Closed admits) (pid : String) :
    OnlyLooksUp admits s (s.require pid).2 ∧
      ∀ h, (s.require pid).1 = .ok h → (s.require pid).2.view.cached.get? pid = some h := by
  obtain ⟨hsame, hfound⟩ := s.require_spec pid
  have hf := hs.configuration_found pid
  rw [hsame]
  exact ⟨hf.toOnlyLooksUp, fun h hok => hf.ok _ (hfound h hok)⟩

/-- Whoever joins is listed afterwards. -/
theorem Closed.join (hs : s.Closed admits) (h : Handle) :
    OnlyLooksUp admits s (s.join h).2 ∧ ((s.join h).1 = .ok () → ∀ f,
      (s.record h).factoryPid = some f →
        (s.join h).2.view.lists f (s.record h).pid = true) := by
  have hcourse := s.joining h
  generalize s.join h = result at hcourse ⊢
  cases hcourse with
  | single factory => exact ⟨hs.onlyLooksUp, fun _ f hf => by rw [factory] at hf; cases hf⟩
  | refused => exact ⟨hs.factory _, fun hok => by cases hok⟩
  | @listed f r s₁ factory found listed =>
    obtain ⟨he, hknown, -⟩ := hs.factory_ok found
    refine ⟨he, fun _ f' hf' => ?_⟩
    rw [factory] at hf'
    cases hf'
    simpa [View.lists, hknown] using listed
  | @joined f r s₁ storage factory found unlisted stored =>
    obtain ⟨he, hknown, hname⟩ := hs.factory_ok found
    -- nobody is struck off when one is added
    have hl : s₁.view.Lookup admits (s₁.view.file (r.add (s.record h).pid)) := by
      refine .file (.revised hknown (r.factoryPid_add _)
        (fun hd => Roster.nodup_add hd _) fun pid hc => ?_)
      exact Or.inl (r.contains_add.mpr (Or.inr hc))
    have hclosed : (({ s₁ with storage } : Session).keepRoster
        (r.add (s.record h).pid)).Closed admits := he.closed.of_gainsNoConfiguration
      (View.Lookups.filed (.single hl) he.closed.filed)
        (storeRoster_sameStored stored).gainsNoConfiguration rfl
      fun _ => rfl
    refine ⟨he.trans ⟨.single hl, hclosed⟩, fun _ f' hf' => ?_⟩
    rw [factory] at hf'
    cases hf'
    show (s₁.view.file (r.add (s.record h).pid)).lists f (s.record h).pid = true
    rw [View.lists_file, r.factoryPid_add, if_pos hname.symm]
    exact r.contains_add.mpr (Or.inl rfl)

theorem Closed.getExisting (hs : s.Closed admits) (pid : String) :
    OnlyLooksUp admits s (s.getExisting pid).2 := by
  rcases s.getExisting_looks pid with he | he
  · rw [he]
    exact hs.onlyLooksUp
  · rw [he]
    exact (hs.configuration_found pid).toOnlyLooksUp

theorem Closed.members (hs : s.Closed admits) (f : String) :
    OnlyLooksUp admits s (s.members f).2 := by
  rcases s.members_looks f with he | he
  · rw [he]
    exact hs.onlyLooksUp
  · rw [he]
    exact hs.factory f

theorem Closed.getLocation (hs : s.Closed admits) (pid : String) :
    OnlyLooksUp admits s (s.getLocation pid).2 := by
  rcases s.getLocation_looks pid with he | he
  · rw [he]
    exact hs.onlyLooksUp
  · rw [he]
    exact (hs.configuration_found pid).toOnlyLooksUp

/-! ### Calls that make a record -/

/-- A new record is admitted and entered, stored or not. -/
theorem Closed.enter (hs : s.Closed admits) {r : Record} {storage : Storage} {home : String}
    (absent : s.view.cached.get? r.pid = none) (blank : r.Blank) (admitted : admits r)
    (hp : s.storage.primary = .ok home) (hhome : r.home = home)
    (hl : storage.chain = s.storage.chain)
    (hst : ∀ name pid, (storage.backend name).HasConfiguration pid →
      pid = r.pid ∨ (s.storage.backend name).HasConfiguration pid) :
    OnlyLooksUp admits s (({ s with storage } : Session).keepRecord r).2 := by
  have hview : (({ s with storage } : Session).keepRecord r).2.view = s.view.adopt r :=
    view_keepRecord absent
  have hlook : s.view.Lookup admits (({ s with storage } : Session).keepRecord r).2.view := by
    rw [hview]
    exact .adopt absent blank.toUntouched admitted
  refine ⟨.single hlook, View.Lookups.filed (.single hlook) hs.filed, hs.source.imp_right ?_⟩
  rintro ⟨name, hn⟩
  exact ⟨name, hn.enter hs.filed absent (hhome.trans (hn.home_eq hp)) hl (hst name)⟩

theorem Closed.getOrCreate (hs : s.Closed admits) (pid : String) (location : Option String)
    (hnew : ∀ r : Record, r.Blank → r.factoryPid = none → admits r) :
    OnlyLooksUp admits s (s.getOrCreate pid location).2 := by
  have hf := hs.configuration_found pid
  have hcourse := s.creating pid location
  generalize s.getOrCreate pid location = result at hcourse ⊢
  cases hcourse with
  | refused looked =>
    rcases looked with rfl | rfl
    · exact hs.onlyLooksUp
    · exact hf.toOnlyLooksUp
  | found => exact hf.toOnlyLooksUp
  | @made s₁ home r storage absent primary new stored =>
    rw [absent] at hf
    have hblank : ({ pid, factoryPid := none, home, staticLocation := location } :
        Record).Blank := ⟨⟨rfl, rfl, rfl⟩, rfl, rfl⟩
    obtain ⟨hpid, hfac, hhome⟩ := Record.restore_identity
      { pid, factoryPid := none, home, staticLocation := location } (s₁.bindings.get? pid)
    rw [← new] at hpid hfac hhome
    have hb : r.Blank := new ▸ hblank.restore (s₁.bindings.get? pid)
    -- what was stored beside the cached configurations is the one that is entered
    refine hf.toOnlyLooksUp.trans (hf.closed.enter ?_ hb (hnew _ hb hfac) primary hhome ?_ ?_)
    · rw [hpid]
      exact hf.ok none rfl
    · rw [Storage.store_eq stored]
      rfl
    · intro name pid' hc
      rw [hpid]
      exact (Storage.hasConfiguration_store stored hc).imp_left And.left

theorem Closed.minting (hs : s.Closed admits) {f : String} {location : Option String}
    {names : List String} {result : Except AdminError (Option Handle) × Session}
    (hcourse : Minting f location s names result)
    (hnew : ∀ r : Record, r.Blank → r.pid ∈ names → admits r) :
    OnlyLooksUp admits s result.2 := by
  induction hcourse with
  | exhausted => exact hs.onlyLooksUp
  | @refused s pid => exact (hs.configuration_found pid).toOnlyLooksUp
  | @taken s pid rest result next ih =>
    -- the name is taken, and the next one is tried
    have hf := hs.configuration_found pid
    exact hf.toOnlyLooksUp.trans (ih hf.closed fun r hb hm => hnew r hb (List.mem_cons_of_mem _ hm))
  | @made s s₁ pid home rest r absent primary new =>
    have hf := hs.configuration_found pid
    rw [absent] at hf
    subst new
    have hblank : ({ pid, factoryPid := some f, home, staticLocation := location } :
        Record).Blank := ⟨⟨rfl, rfl, rfl⟩, rfl, rfl⟩
    exact hf.toOnlyLooksUp.trans (hf.closed.enter (hf.ok none rfl) hblank
      (hnew _ hblank List.mem_cons_self) primary rfl rfl fun _ _ hc => Or.inr hc)

theorem Closed.createMember (hs : s.Closed admits) (f : String) (location : Option String)
    (names : List String) (hnew : ∀ r : Record, r.Blank → r.pid ∈ names → admits r) :
    OnlyLooksUp admits s (s.createMember f location names).2 := by
  have hf := hs.factory f
  have hcourse := s.recruiting f location names
  generalize s.createMember f location names = result at hcourse ⊢
  cases hcourse with
  | refused looked =>
    rcases looked with rfl | rfl
    · exact hs.onlyLooksUp
    · exact hf
  | minted hcourse => exact hf.trans (hf.closed.minting hcourse hnew)

/-! ### Calls that change a record -/

theorem commit_sameStored (s : Session) (h : Handle) (p : Properties) :
    s.SameStored (s.commit h p) :=
  ((s.change_sameStored h _).trans (announce_sameStored _ _ _)).trans (schedule_sameStored _ _)

theorem view_commit (s : Session) (h : Handle) (p : Properties) :
    (s.commit h p).view = (s.view.change h fun r => r.commit p).enqueue
      (.deliver h ((s.view.record h).counter + 1) ((s.view.record h).stamp p)) := by
  unfold commit
  rw [view_schedule, view_announce, view_change]
  rfl

theorem discard_sameStored (s : Session) (h : Handle) (pid : String) :
    s.SameStored (s.discard h pid) := by
  unfold discard
  dsimp only
  refine SameStored.trans ?_
    (((assignBinding_sameStored _ _ _).trans (announce_sameStored _ _ _)).trans
    (schedule_sameStored _ _))
  exact ⟨rfl, .refl _⟩

theorem resettle_sameStored (s : Session) (h : Handle) (pid : String) (location : Option String) :
    s.SameStored (s.resettle h pid location) := by
  have hb := (s.change_sameStored h fun r => r.relocate location).trans
    (assignBinding_sameStored _ pid none)
  unfold resettle
  dsimp only
  split
  · exact hb
  · split
    · exact (hb.trans (announce_sameStored _ _ _)).trans (schedule_sameStored _ _)
    · exact hb.trans (announce_sameStored _ _ _)

/-- A change of the location concerns the record and what waits. -/
theorem view_resettle (s : Session) (h : Handle) (pid : String) (location : Option String) :
    ∃ waiting, (s.resettle h pid location).view =
      { s.view.change h fun r => r.relocate location with waiting } := by
  unfold resettle
  dsimp only
  split
  · exact ⟨_, rfl⟩
  · split
    · rw [view_schedule, View.enqueue_eq, view_announce]
      exact ⟨_, rfl⟩
    · rw [view_announce]
      exact ⟨_, rfl⟩

/-- Before a record is changed it is the cached one of its pid. -/
theorem Closed.cached_pid (hs : s.Closed admits) {pid : String} {h : Handle}
    (hc : s.view.cached.get? pid = some h) :
    s.view.cached.get? (s.view.record h).pid = some h := by
  obtain ⟨-, hpid, -⟩ := hs.filed.held pid h hc
  rw [hpid]
  exact hc

/-- Storing what is cached, and then changing the record without touching the storage. -/
theorem Closed.store (hs : s.Closed admits) {pid : String} {h : Handle} {home : String}
    {d : Properties} {storage : Storage} {s' : Session}
    (hc : s.view.cached.get? pid = some h) (hst : s.storage.store home pid d = .ok storage)
    (hf : s'.view.Filed) (ht : storage.GainsNoConfiguration s'.storage)
    (hcached : s'.view.cached = s.view.cached)
    (hh : ∀ h, (s'.record h).home = (s.record h).home) : s'.Closed admits := by
  refine ⟨hf, hs.source.imp_right ?_⟩
  rintro ⟨name, hn⟩
  refine ⟨name, (hn.store (by rw [hc]; exact Option.some_ne_none h) hst).of_gainsNoConfiguration ht
    hcached hh⟩

theorem Closed.update (hs : s.Closed admits) (pid : String) (p : Properties) :
    Conduct admits s (s.update pid p).2 := by
  obtain ⟨hreq, hcached⟩ := hs.require pid
  have hcourse := s.updating pid p
  generalize s.update pid p = result at hcourse ⊢
  cases hcourse with
  | refused looked =>
    rcases looked with rfl | rfl
    · exact hs.onlyLooksUp.conduct
    · exact hreq.conduct
  | @unjoined h s₁ s₂ e required unjoined =>
    rw [required] at hreq
    have hjoin := (hreq.closed.join h).1
    rw [unjoined] at hjoin
    exact (hreq.trans hjoin).conduct
  | @unstored h s₁ s₂ e required joined =>
    rw [required] at hreq
    have hjoin := (hreq.closed.join h).1
    rw [joined] at hjoin
    exact (hreq.trans hjoin).conduct
  | @updated h s₁ s₂ storage required joined stored =>
    rw [required] at hreq hcached
    obtain ⟨hjoin, hlisted⟩ := hreq.closed.join h
    rw [joined] at hjoin hlisted
    -- joining the factory has left the record as it was found
    have h₁ : s₁.view.cached.get? pid = some h := hcached h rfl
    have h₂ : s₂.view.cached.get? pid = some h := hjoin.extends.cached pid h h₁
    have hrec : s₂.view.record h = s₁.view.record h :=
      hjoin.extends.record_eq (hreq.closed.filed.held pid h h₁).1
    have hview := view_commit { s₂ with storage } h p
    have ham : s₂.view.Amendment (({ s₂ with storage } : Session).commit h p).view := by
      rw [hview]
      refine .commit (hjoin.closed.cached_pid h₂) fun f hf => ?_
      rw [hrec] at hf ⊢
      exact hlisted rfl f hf
    refine ⟨⟨s₂.view, (hreq.trans hjoin).lookups, Or.inr ham⟩, ?_⟩
    refine hjoin.closed.store h₂ stored (ham.filed hjoin.closed.filed)
      (commit_sameStored { s₂ with storage } h p).gainsNoConfiguration ?_ ham.home
    rw [hview, View.enqueue_eq]
    rfl

/-- What a deletion does to what deliveries see. -/
theorem view_discard {pid : String} {h : Handle} (hpid : (s.view.record h).pid = pid) :
    (s.discard h pid).view =
      ({ s.view.change h fun r => { r with deleted := true } with
        cached := s.view.cached.erase (s.view.record h).pid } : View).enqueue
          (.retract h (s.view.record h).owner) := by
  -- the owner is read when the record is deleted already, and is the same
  have hown : ∀ r : Record, ({ r with deleted := true } : Record).owner = r.owner := fun _ => rfl
  unfold discard
  dsimp only
  rw [view_schedule, view_announce, view_assignBinding, ← record_view, view_announce,
    view_assignBinding, hpid]
  congr 2
  exact s.view.record_change_of_eq hown h h

theorem Closed.delete (hs : s.Closed admits) (pid : String) :
    Conduct admits s (s.delete pid).2 := by
  obtain ⟨hreq, hcached⟩ := hs.require pid
  have hcourse := s.deleting pid
  generalize s.delete pid = result at hcourse ⊢
  cases hcourse with
  | refused looked =>
    rcases looked with rfl | rfl
    · exact hs.onlyLooksUp.conduct
    · exact hreq.conduct
  | @deleted h s₁ storage running required stored =>
    rw [required] at hreq hcached
    have h₁ : s₁.view.cached.get? pid = some h := hcached h rfl
    obtain ⟨-, hpid, -⟩ := hreq.closed.filed.held pid h h₁
    have hview := view_discard (s := { s₁ with storage }) hpid
    have ham : s₁.view.Amendment (({ s₁ with storage } : Session).discard h pid).view := by
      rw [hview]
      exact .discard (hreq.closed.cached_pid h₁)
    refine ⟨⟨s₁.view, hreq.lookups, Or.inr ham⟩, ham.filed hreq.closed.filed,
      hreq.closed.source.imp_right ?_⟩
    rintro ⟨name, hn⟩
    refine ⟨name, hn.drop h₁ stored
      (discard_sameStored { s₁ with storage } h pid).gainsNoConfiguration ?_ ham.home⟩
    rw [hview, View.enqueue_eq]
    exact congrArg s₁.view.cached.erase hpid

theorem Closed.setLocation (hs : s.Closed admits) (pid : String) (location : Option String) :
    Conduct admits s (s.setLocation pid location).2 := by
  obtain ⟨hreq, hcached⟩ := hs.require pid
  have hcourse := s.settling pid location
  generalize s.setLocation pid location = result at hcourse ⊢
  cases hcourse with
  | refused looked =>
    rcases looked with rfl | rfl
    · exact hs.onlyLooksUp.conduct
    · exact hreq.conduct
  | @settled h s₁ storage required stored =>
    rw [required] at hreq hcached
    have h₁ : s₁.view.cached.get? pid = some h := hcached h rfl
    have hpid := hreq.closed.cached_pid h₁
    have ham : s₁.view.Amendment
        (({ s₁ with storage } : Session).resettle h pid location).view := by
      unfold resettle
      dsimp only
      split
      · next hsame =>
        rw [view_assignBinding, view_change]
        exact .settle hpid (Or.inl hsame)
      · split
        · next howned =>
          rw [view_schedule, view_announce, view_assignBinding, view_change]
          exact .resettle hpid howned
        · next hnone =>
          rw [view_announce, view_assignBinding, view_change]
          exact .settle hpid (Or.inr (Option.not_isSome_iff_eq_none.mp hnone))
    obtain ⟨waiting, hview⟩ := view_resettle { s₁ with storage } h pid location
    have hkept : (({ s₁ with storage } : Session).resettle h pid location).view.cached =
        s₁.view.cached := by
      rw [hview]
      rfl
    have ht := (resettle_sameStored { s₁ with storage } h pid location).gainsNoConfiguration
    refine ⟨⟨s₁.view, hreq.lookups, Or.inr ham⟩, ?_⟩
    have hf := ham.filed hreq.closed.filed
    -- a record without properties is not stored
    unfold storeLocation at stored
    dsimp only at stored
    split at stored
    · cases stored
      exact hreq.closed.of_gainsNoConfiguration hf ht hkept ham.home
    · exact hreq.closed.store h₁ stored hf ht hkept ham.home

end Session
end Provisioning
