import Provisioning.Proofs.Moves

/-! # The storage mirrors the cache

Every change is stored before it is made, from what the record would come to.  So whatever writes
fail, and whenever they do, the backend of a manager that has its storage to itself holds under
every pid exactly what the cached record of the pid comes to, and nothing where no record is
cached.  The bindings and the rosters have ids of their own, and of a record under such an id
nothing can be said.

The one record that is cached and not stored is that of a member that was never updated.
-/
namespace Provisioning

namespace Record

variable (r : Record)

/-- What the storage holds of the record; a member that was never updated is not stored. -/
def deposit : Option Properties :=
  if r.factoryPid.isSome && r.isNew then none else some r.persisted

theorem deposit_commit (p : Properties) : (r.commit p).deposit = some (r.persistedWith p) := by
  have hold : (r.commit p).isNew = false := rfl
  rw [deposit, hold, Bool.and_false, persisted_commit]
  rfl

/-- Whether a record is stored does not depend on its location. -/
theorem deposit_relocate (location : Option String) :
    (r.relocate location).deposit =
      if r.factoryPid.isSome && r.isNew then none else some (r.persistedAt location) := rfl

theorem SameContent.deposit {r r' : Record} (h : r.SameContent r') : r'.deposit = r.deposit := by
  unfold Record.deposit isNew persisted dictionary stamp
  rw [h.pid, h.factoryPid, h.properties, h.staticLocation]

end Record

namespace View

variable {v v' : View}

/-- What the storage is to hold under a pid. -/
def deposit? (v : View) (pid : String) : Option Properties :=
  (v.cached.get? pid).bind fun h => (v.record h).deposit

theorem deposit?_of_cached {pid : String} {h : Handle} (hc : v.cached.get? pid = some h) :
    v.deposit? pid = (v.record h).deposit := by
  rw [deposit?, hc, Option.bind_some]

theorem deposit?_of_absent {pid : String} (hc : v.cached.get? pid = none) :
    v.deposit? pid = none := by
  rw [deposit?, hc, Option.bind_none]

theorem Alike.deposit? (h : v.Alike v') (pid : String) : v'.deposit? pid = v.deposit? pid := by
  unfold View.deposit?
  rw [h.cached]
  exact Option.bind_congr fun i _ => (h.content i).deposit

theorem deposit?_adopt (hv : v.Filed) (r : Record) (pid : String) :
    (v.adopt r).deposit? pid = if pid = r.pid then r.deposit else v.deposit? pid := by
  unfold deposit?
  rw [cached_adopt]
  split
  · exact congrArg Record.deposit (v.record_enroll_new r)
  · exact Option.bind_congr fun h hc =>
      congrArg Record.deposit (v.record_enroll_lt (hv.held pid h hc).1 r)

/-- A change of one record is none of the records under other pids. -/
theorem deposit?_change_ne (hv : v.Filed) {pid pid' : String} {h : Handle}
    (hc : v.cached.get? pid = some h) (hne : pid' ≠ pid) (f : Record → Record) :
    (v.change h f).deposit? pid' = v.deposit? pid' := by
  refine Option.bind_congr fun i hi => ?_
  have hih : i ≠ h := by
    rintro rfl
    exact hne ((hv.held pid' i hi).2.1.symm.trans (hv.held pid i hc).2.1)
  rw [v.record_change_ne hih]

end View

namespace Session

variable {bindingsId name : String} {s s' : Session}

/-- A session whose backend holds what the cached records come to, under every pid that is none of
the manager's own ids. -/
structure Mirrored (bindingsId name : String) (s : Session) : Prop extends s.Stocked name where
  id : s.bindings.id = bindingsId
  mirrors : ∀ pid, ¬Storage.Reserved bindingsId pid →
    s.storage.held name pid = s.view.deposit? pid

namespace Mirrored

/-- The bindings and the rosters are written, and the records change in nothing that is stored. -/
theorem of_sameStored (hm : s.Mirrored bindingsId name) (hb : s.SameStored s')
    (ha : s.view.Alike s'.view) : s'.Mirrored bindingsId name where
  toStocked := hm.toStocked.of_gainsNoConfiguration hb.gainsNoConfiguration ha.cached
    fun h => (ha.content h).home
  id := hb.id.trans hm.id
  mirrors := by
    intro pid hr
    have hst := hb.storage
    rw [hm.id] at hst
    rw [hst.others name pid hr, hm.mirrors pid hr, ha.deposit? pid]

/-- Under one pid the storage and what it is to hold change alike, and nothing else is stored but
the bindings and the rosters. -/
theorem amend (hm : s.Mirrored bindingsId name) (storage : Storage) (pid : String)
    (d : Option Properties) (hb : ({ s with storage } : Session).SameStored s')
    (hst : s'.Stocked name)
    (hheld : ∀ pid', ¬Storage.Reserved bindingsId pid' →
      storage.held name pid' = if pid' = pid then d else s.storage.held name pid')
    (hself : s'.view.deposit? pid = d)
    (hother : ∀ pid', pid' ≠ pid → s'.view.deposit? pid' = s.view.deposit? pid') :
    s'.Mirrored bindingsId name where
  toStocked := hst
  id := hb.id.trans hm.id
  mirrors := by
    intro pid' hr
    have hsameStored : storage.SameStored s.bindings.id s'.storage := hb.storage
    rw [hm.id] at hsameStored
    rw [hsameStored.others name pid' hr, hheld pid' hr]
    split
    · next he => rw [he, hself]
    · next hne => rw [hm.mirrors pid' hr, hother pid' hne]

/-! ### Looking up -/

/-- The record that a call needs is cached, or the call is refused. -/
theorem require_eq (hm : s.Mirrored bindingsId name) (pid : String) :
    (s.require pid).2 = s ∧
      ∀ h, (s.require pid).1 = .ok h → s.view.cached.get? pid = some h := by
  obtain ⟨hsame, hfound⟩ := hm.configuration_eq pid
  obtain ⟨hlooks, hok⟩ := s.require_spec pid
  exact ⟨hlooks.trans hsame, fun h hr => (hfound _ (hok h hr)).symm⟩

theorem configuration (hm : s.Mirrored bindingsId name) (pid : String) :
    (s.configuration pid).2.Mirrored bindingsId name := by
  rw [(hm.configuration_eq pid).1]
  exact hm

theorem factory (hm : s.Mirrored bindingsId name) (f : String) :
    (s.factory f).2.Mirrored bindingsId name := by
  rcases s.factory_keeps f with he | ⟨r, he⟩
  · rw [he]
    exact hm
  · rw [he]
    exact hm.of_sameStored (s.keepRoster_sameStored r) ⟨rfl, rfl, fun _ => .refl _⟩

/-! ### Calls that make a record -/

/-- A new record is entered, with the storage that holds what is to be stored of it. -/
theorem enter (hm : s.Mirrored bindingsId name) (hf : s.view.Filed) {r : Record}
    {storage : Storage} (absent : s.view.cached.get? r.pid = none) (home : r.home = name)
    (hl : storage.chain = s.storage.chain)
    (hst : ∀ pid, (storage.backend name).HasConfiguration pid →
      pid = r.pid ∨ (s.storage.backend name).HasConfiguration pid)
    (hheld : ∀ pid, ¬Storage.Reserved bindingsId pid →
      storage.held name pid = if pid = r.pid then r.deposit else s.storage.held name pid) :
    (({ s with storage } : Session).keepRecord r).2.Mirrored bindingsId name := by
  have hview : (({ s with storage } : Session).keepRecord r).2.view = s.view.adopt r :=
    view_keepRecord absent
  refine hm.amend storage r.pid r.deposit ⟨rfl, .refl _⟩
    (hm.toStocked.enter hf absent home hl hst) hheld ?_ fun pid hne => ?_
  · rw [hview, View.deposit?_adopt hf, if_pos rfl]
  · rw [hview, View.deposit?_adopt hf, if_neg hne]

theorem getOrCreate (hm : s.Mirrored bindingsId name) (hf : s.view.Filed) (pid : String)
    (location : Option String) : (s.getOrCreate pid location).2.Mirrored bindingsId name := by
  obtain ⟨hsame, hfound⟩ := hm.configuration_eq pid
  have hcourse := s.creating pid location
  generalize s.getOrCreate pid location = result at hcourse ⊢
  cases hcourse with
  | refused looked => rcases looked with rfl | rfl <;> simpa only [hsame] using hm
  | found => simpa only [hsame] using hm
  | @made s₁ home r storage absent primary new stored =>
    rw [absent] at hsame hfound
    obtain rfl : s₁ = s := hsame
    obtain ⟨hpid, hsingle, hhome⟩ := Record.restore_identity
      { pid, factoryPid := none, home, staticLocation := location } (s₁.bindings.get? pid)
    rw [← new] at hpid hsingle hhome
    have habsent : s₁.view.cached.get? r.pid = none := hpid ▸ (hfound none rfl).symm
    have hdeposit : r.deposit = some r.persisted := by
      rw [Record.deposit, hsingle]
      rfl
    obtain rfl : home = name := hm.home_eq primary
    refine hm.enter hf habsent hhome ?_ (fun pid' hc => ?_) fun pid' _ => ?_
    · rw [Storage.store_eq stored]
      rfl
    · rw [hpid]
      exact (Storage.hasConfiguration_store stored hc).imp_left And.left
    · rw [Storage.held_store stored, hdeposit, hpid]
      simp only [true_and]

/-- A new member is not stored, and neither was anything under its pid. -/
theorem minting (hm : s.Mirrored bindingsId name) (hf : s.view.Filed) {f : String}
    {location : Option String} {names : List String}
    {result : Except AdminError (Option Handle) × Session}
    (hcourse : Minting f location s names result) : result.2.Mirrored bindingsId name := by
  induction hcourse with
  | exhausted => exact hm
  | @refused s pid => exact hm.configuration pid
  | @taken s pid rest result next ih =>
    obtain ⟨hsame, -⟩ := hm.configuration_eq pid
    rw [hsame] at ih
    exact ih hm hf
  | @made s s₁ pid home rest r absent primary new =>
    obtain ⟨hsame, hfound⟩ := hm.configuration_eq pid
    rw [absent] at hsame hfound
    obtain rfl : s₁ = s := hsame
    subst new
    have habsent : s₁.view.cached.get? pid = none := (hfound none rfl).symm
    refine hm.enter hf habsent (hm.home_eq primary) rfl (fun _ hc => Or.inr hc) fun pid' hr => ?_
    split
    · next he =>
      obtain rfl : pid' = pid := he
      rw [hm.mirrors pid' hr, View.deposit?_of_absent habsent]
      rfl
    · rfl

theorem createMember (hm : s.Mirrored bindingsId name) (hf : s.view.Filed) (f : String)
    (location : Option String) (names : List String) :
    (s.createMember f location names).2.Mirrored bindingsId name := by
  have hm₁ := hm.factory f
  have hf₁ := ((closed_of_filed hf).factory f).closed.filed
  have hcourse := s.recruiting f location names
  generalize s.createMember f location names = result at hcourse ⊢
  cases hcourse with
  | refused looked =>
    rcases looked with rfl | rfl
    · exact hm
    · exact hm₁
  | minted hcourse => exact hm₁.minting hf₁ hcourse

/-! ### Calls that change a record -/

/-- Joining a factory stores nothing but its roster. -/
theorem join (hm : s.Mirrored bindingsId name) (h : Handle) :
    (s.join h).2.Mirrored bindingsId name := by
  have hcourse := s.joining h
  generalize s.join h = result at hcourse ⊢
  cases hcourse with
  | single => exact hm
  | @refused f => exact hm.factory f
  | @listed f roster s₁ factory found =>
    have hm₁ := hm.factory f
    rw [found] at hm₁
    exact hm₁
  | @joined f roster s₁ storage factory found unlisted stored =>
    have hm₁ := hm.factory f
    rw [found] at hm₁
    exact hm₁.of_sameStored ((storeRoster_sameStored stored).trans (keepRoster_sameStored _ _))
      ⟨rfl, rfl, fun _ => .refl _⟩

/-- A record is changed to what was stored of it before. -/
theorem revise (hm : s.Mirrored bindingsId name) (hf : s.view.Filed) {pid : String} {h : Handle}
    (hc : s.view.cached.get? pid = some h) {storage : Storage} (f : Record → Record)
    (hb : ({ s with storage } : Session).SameStored s')
    (hview : ∃ waiting, s'.view = { s.view.change h f with waiting })
    (hst : ({ s with storage } : Session).Stocked name) (hhome : ∀ r, (f r).home = r.home)
    (hheld : ∀ pid', ¬Storage.Reserved bindingsId pid' → storage.held name pid' =
      if pid' = pid then (f (s.record h)).deposit else s.storage.held name pid') :
    s'.Mirrored bindingsId name := by
  obtain ⟨waiting, hview⟩ := hview
  refine hm.amend storage pid (f (s.record h)).deposit hb
    (hst.of_gainsNoConfiguration hb.gainsNoConfiguration ?_ fun i => ?_) hheld ?_ fun pid' hne => ?_
  · rw [hview]
    rfl
  · rw [← record_view, hview]
    exact s.view.record_change_of_eq hhome h i
  · have hc' : (s.view.change h f).cached.get? pid = some h := hc
    rw [hview]
    show (s.view.change h f).deposit? pid = _
    rw [View.deposit?_of_cached hc', s.view.record_change_self (hf.held pid h hc).1]
    rfl
  · rw [hview]
    exact View.deposit?_change_ne hf hc hne f

theorem update (hm : s.Mirrored bindingsId name) (hf : s.view.Filed) (pid : String)
    (p : Properties) : (s.update pid p).2.Mirrored bindingsId name := by
  obtain ⟨hsame, hcached⟩ := hm.require_eq pid
  have hcourse := s.updating pid p
  generalize s.update pid p = result at hcourse ⊢
  cases hcourse with
  | refused looked => rcases looked with rfl | rfl <;> simpa only [hsame] using hm
  | @unjoined h s₁ s₂ e required unjoined =>
    rw [required] at hsame
    obtain rfl : s₁ = s := hsame
    have hm₂ := hm.join h
    rw [unjoined] at hm₂
    exact hm₂
  | @unstored h s₁ s₂ e required joined =>
    rw [required] at hsame
    obtain rfl : s₁ = s := hsame
    have hm₂ := hm.join h
    rw [joined] at hm₂
    exact hm₂
  | @updated h s₁ s₂ storage required joined stored =>
    rw [required] at hsame hcached
    obtain rfl : s₁ = s := hsame
    have hm₂ := hm.join h
    have hjoin := ((closed_of_filed hf).join h).1
    rw [joined] at hm₂ hjoin
    dsimp only at hm₂ hjoin
    have hc : s₂.view.cached.get? pid = some h := hjoin.extends.cached pid h (hcached h rfl)
    rw [hm₂.homes pid h hc] at stored
    refine hm₂.revise hjoin.closed.filed hc (fun r => r.commit p)
      (commit_sameStored { s₂ with storage } h p) ?_
      (hm₂.store (by rw [hc]; exact Option.some_ne_none h) stored) (fun _ => rfl) fun pid' _ => ?_
    · rw [view_commit, View.enqueue_eq]
      exact ⟨_, rfl⟩
    · rw [Storage.held_store stored, Record.deposit_commit]
      simp only [true_and]

theorem delete (hm : s.Mirrored bindingsId name) (hf : s.view.Filed) (pid : String) :
    (s.delete pid).2.Mirrored bindingsId name := by
  obtain ⟨hsame, hcached⟩ := hm.require_eq pid
  have hcourse := s.deleting pid
  generalize s.delete pid = result at hcourse ⊢
  cases hcourse with
  | refused looked => rcases looked with rfl | rfl <;> simpa only [hsame] using hm
  | @deleted h s₁ storage running required stored =>
    rw [required] at hsame hcached
    obtain rfl : s₁ = s := hsame
    have hc : s₁.view.cached.get? pid = some h := hcached h rfl
    have hpid : (s₁.view.record h).pid = pid := (hf.held pid h hc).2.1
    obtain ⟨waiting, hview⟩ : ∃ waiting,
        (({ s₁ with storage } : Session).discard h pid).view =
          { s₁.view.change h fun r => { r with deleted := true } with
            cached := s₁.view.cached.erase pid, waiting } := by
      have hv := view_discard (s := { s₁ with storage }) hpid
      rw [View.enqueue_eq] at hv
      exact ⟨_, hv.trans (by rw [← hpid]; rfl)⟩
    have hcache : (({ s₁ with storage } : Session).discard h pid).view.cached =
        s₁.view.cached.erase pid := by rw [hview]
    have hb := discard_sameStored { s₁ with storage } h pid
    refine hm.amend storage pid none hb
      (hm.drop hc stored hb.gainsNoConfiguration hcache fun i => ?_)
      (fun pid' _ => ?_) ?_ fun pid' hne => ?_
    · rw [← record_view, hview]
      exact s₁.view.record_change_of_eq (q := Record.home)
        (f := fun r => { r with deleted := true }) (fun _ => rfl) h i
    · rw [hm.homes pid h hc] at stored
      rw [Storage.held_delete stored]
      simp only [true_and]
    · exact View.deposit?_of_absent (by rw [hcache, Table.get?_erase_self])
    · refine Eq.trans ?_ (View.deposit?_change_ne hf hc hne fun r => { r with deleted := true })
      unfold View.deposit?
      rw [hview, Table.get?_erase_of_ne _ hne]
      rfl

theorem setLocation (hm : s.Mirrored bindingsId name) (hf : s.view.Filed) (pid : String)
    (location : Option String) : (s.setLocation pid location).2.Mirrored bindingsId name := by
  obtain ⟨hsame, hcached⟩ := hm.require_eq pid
  have hcourse := s.settling pid location
  generalize s.setLocation pid location = result at hcourse ⊢
  cases hcourse with
  | refused looked => rcases looked with rfl | rfl <;> simpa only [hsame] using hm
  | @settled h s₁ storage required stored =>
    rw [required] at hsame hcached
    obtain rfl : s₁ = s := hsame
    have hc : s₁.view.cached.get? pid = some h := hcached h rfl
    have hb := resettle_sameStored { s₁ with storage } h pid location
    have hview := view_resettle { s₁ with storage } h pid location
    unfold storeLocation at stored
    dsimp only at stored
    split at stored
    · next hunstored =>
      -- nothing is stored of the record, before and after
      cases stored
      refine hm.revise hf hc (fun r => r.relocate location) hb hview hm.toStocked
        (fun _ => rfl) fun pid' hr => ?_
      rw [Record.deposit_relocate, if_pos hunstored]
      split
      · next he =>
        rw [hm.mirrors pid' hr, he, View.deposit?_of_cached hc]
        exact if_pos hunstored
      · rfl
    · next hstored =>
      rw [hm.homes pid h hc] at stored
      refine hm.revise hf hc (fun r => r.relocate location) hb hview
        (hm.store (by rw [hc]; exact Option.some_ne_none h) stored) (fun _ => rfl)
        fun pid' _ => ?_
      rw [Record.deposit_relocate, if_neg hstored, Storage.held_store stored]
      simp only [true_and]

/-! ### Consumers that are registered -/

theorem schedule (hm : s.Mirrored bindingsId name) (t : Task) :
    (s.schedule t).Mirrored bindingsId name :=
  hm.of_sameStored (s.schedule_sameStored t) (by rw [view_schedule]; exact View.alike_enqueue _ t)

theorem muster (hm : s.Mirrored bindingsId name) (f : String) (roll : MusterRoll) (pid : String) :
    (s.muster f roll pid).2.Mirrored bindingsId name := by
  have hm₁ := hm.configuration pid
  unfold Session.muster
  split
  · next he => rw [he] at hm₁; exact hm₁
  · next he =>
    rw [he] at hm₁
    dsimp only
    split
    · split <;> exact hm₁
    · exact hm₁
  · next he => rw [he] at hm₁; exact hm₁

theorem musterAll (hm : s.Mirrored bindingsId name) (f : String) (pids : List String)
    (roll : MusterRoll) : (Session.musterAll f pids roll s).2.Mirrored bindingsId name := by
  induction pids generalizing s roll with
  | nil => exact hm
  | cons pid rest ih => exact ih (hm.muster f roll pid) _

theorem prune (hm : s.Mirrored bindingsId name) (before after : Roster) :
    (s.prune before after).Mirrored bindingsId name := by
  unfold Session.prune
  split
  · dsimp only
    split
    · next storage hst =>
      exact hm.of_sameStored ((s.keepRoster_sameStored after).trans (storeRoster_sameStored hst))
        ⟨rfl, rfl, fun _ => .refl _⟩
    · exact hm.of_sameStored (s.keepRoster_sameStored after) ⟨rfl, rfl, fun _ => .refl _⟩
  · exact hm

theorem attachTo (hm : s.Mirrored bindingsId name) (c : Consumer) (identity : String) :
    (s.attachTo c identity).Mirrored bindingsId name := by
  unfold Session.attachTo
  split
  · exact (hm.configuration identity).schedule _
  · have hm₁ := hm.factory identity
    unfold attachMembers
    split
    · next he => rw [he] at hm₁; exact hm₁
    · next roster s₁ he =>
      rw [he] at hm₁
      exact ((hm₁.musterAll identity roster.members { roster }).prune _ _).schedule _

theorem attachAll (hm : s.Mirrored bindingsId name) (c : Consumer) (identities : List String) :
    (identities.foldl (fun s pid => s.attachTo c pid) s).Mirrored bindingsId name := by
  induction identities generalizing s with
  | nil => exact hm
  | cons identity rest ih => exact ih (hm.attachTo c identity)

/-! ### Any step -/

/-- A call keeps what the storage holds in step with the cache, refused or not. -/
theorem administrative (hm : s.Mirrored bindingsId name) (hf : s.view.Filed) {a : Action}
    (ha : a.isAdministrative = true) : (s.step a).2.Mirrored bindingsId name := by
  cases a with
  | getOrCreate pid location => exact hm.getOrCreate hf pid location
  | getExisting pid =>
    show (s.getExisting pid).2.Mirrored bindingsId name
    rcases s.getExisting_looks pid with he | he <;> rw [he]
    · exact hm
    · exact hm.configuration pid
  | createMember f location names => exact hm.createMember hf f location names
  | members f =>
    show (s.members f).2.Mirrored bindingsId name
    rcases s.members_looks f with he | he <;> rw [he]
    · exact hm
    · exact hm.factory f
  | list filter => exact hm
  | update pid p => exact hm.update hf pid p
  | delete pid => exact hm.delete hf pid
  | setLocation pid location => exact hm.setLocation hf pid location
  | getLocation pid =>
    show (s.getLocation pid).2.Mirrored bindingsId name
    rcases s.getLocation_looks pid with he | he <;> rw [he]
    · exact hm
    · exact hm.configuration pid
  | consumerRegistered | consumerWithdrawn | listenerRegistered | listenerWithdrawn
  | locationUninstalled | submit | addPlugin | removePlugin | around | runUpdate | runNotice
  | shutdown => cases ha

end Mirrored
end Session

/-- Whatever happens to a backend, what it holds is not touched. -/
def Action.SparesStorage : Action → Prop
  | .around (.backend _ change) => ∀ b, (change b).dictionaries = b.dictionaries
  | _ => True

theorem Action.spares_of_ne_backend {a : Action}
    (h : ∀ name change, a ≠ .around (.backend name change)) : a.SparesStorage := by
  unfold SparesStorage
  split
  · next name change => exact absurd rfl (h name change)
  · trivial

namespace Session

variable {bindingsId name : String} {s s' : Session}

/-- An action that neither looks things up nor ends the session writes the bindings and the rosters
at most. -/
theorem step_sameStored {a : Action} (hl : a.looksUp = false) (hs : a ≠ .shutdown)
    (hspares : a.SparesStorage) : s.SameStored (s.step a).2 := by
  have hsame : ∀ s' : Session, s'.bindings = s.bindings → s'.storage = s.storage →
      s.SameStored s' := fun s' hb hst => ⟨by rw [hb], by rw [hst]; exact .refl _⟩
  cases a with
  | consumerWithdrawn service => exact s.consumerWithdrawn_sameStored service
  | locationUninstalled location => exact s.locationUninstalled_sameStored location
  | listenerRegistered l =>
    show s.SameStored (s.listenerRegistered l)
    unfold listenerRegistered
    split <;> exact hsame _ rfl rfl
  | runUpdate => exact s.runUpdate_sameStored
  | runNotice => exact s.runNotice_sameStored
  | around action =>
    cases action with
    | backend name' change =>
      exact ⟨rfl, s.storage.sameStored_withBackend (hspares (s.storage.backend name'))⟩
    | withdraw id | behave id =>
      refine hsame _ rfl ?_
      show (s.toWorld.step _).storage = s.storage
      simp only [World.step]
      split <;> rfl
    | install | setState | uninstall | addConsumer | addListener => exact hsame _ rfl rfl
  | listenerWithdrawn | submit | addPlugin | removePlugin => exact hsame _ rfl rfl
  | shutdown => exact absurd rfl hs
  | getOrCreate | getExisting | createMember | members | list | update | delete | setLocation
  | getLocation | consumerRegistered => cases hl

/-! ### The end -/

/-- A session that was shut down: no more work is accepted, and nothing is cached. -/
structure Retired (s : Session) : Prop where
  stopped : s.view.accepting = false
  empty : s.view.cached = .empty

theorem shutdown_retired (s : Session) : s.shutdown = s ∨ s.shutdown.Retired := by
  refine s.shutdown_view.imp_right fun hview => ?_
  have halike := View.alike_of_steps (fun _ _ hw => hw.alike)
    (runUpdates_view { s with updates := s.updates.close } s.updates.waiting.length)
  refine ⟨?_, ?_⟩
  · rw [hview]
    exact halike.accepting
  · rw [hview]

/-- A session that was shut down refuses every call. -/
theorem Retired.administrative (hr : s.Retired) {a : Action} (ha : a.isAdministrative = true) :
    (s.step a).2 = s := by
  have hstopped : s.isRunning = false := hr.stopped
  cases a with
  | getOrCreate => simp [step, answering, getOrCreate, hstopped]
  | getExisting => simp [step, answering, getExisting, hstopped]
  | createMember => simp [step, answering, createMember, hstopped]
  | members => simp [step, answering, members, hstopped]
  | list => rfl
  | update => simp [step, answering, update, hstopped]
  | delete => simp [step, answering, delete, hstopped]
  | setLocation => simp [step, answering, setLocation, hstopped]
  | getLocation => simp [step, answering, getLocation, hstopped]
  | consumerRegistered | consumerWithdrawn | listenerRegistered | listenerWithdrawn
  | locationUninstalled | submit | addPlugin | removePlugin | around | runUpdate | runNotice
  | shutdown => cases ha

theorem Retired.step (hr : s.Retired) (hf : s.view.Filed) (a : Action) :
    (s.step a).2.Retired := by
  rcases a.kinds with ha | ⟨c, rfl⟩ | rfl | ⟨hl, hs⟩
  · rw [hr.administrative ha]
    exact hr
  · have hstopped : s.isRunning = false := hr.stopped
    show (s.consumerRegistered c).Retired
    rw [consumerRegistered, hstopped]
    exact hr
  · show s.shutdown.Retired
    rcases s.shutdown_retired with he | he
    · rw [he]
      exact hr
    · exact he
  · have halike := (step_deal hf a).alike hl hs
    exact ⟨halike.accepting.trans hr.stopped, halike.cached.trans hr.empty⟩

/-! ### Runs -/

/-- A step that does not end the session keeps the storage in step with the cache. -/
theorem Mirrored.step_unfinished (hm : s.Mirrored bindingsId name) (hf : s.view.Filed)
    {a : Action} (hend : a ≠ .shutdown) (hspares : a.SparesStorage) :
    (s.step a).2.Mirrored bindingsId name := by
  rcases a.kinds with ha | ⟨c, rfl⟩ | rfl | ⟨hl, hs⟩
  · exact hm.administrative hf ha
  · show (s.consumerRegistered c).Mirrored bindingsId name
    unfold consumerRegistered
    split
    · exact hm.attachAll c c.service.pids
    · exact hm
  · exact absurd rfl hend
  · exact hm.of_sameStored (step_sameStored hl hs hspares) ((step_deal hf a).alike hl hs)

theorem Mirrored.run_unfinished (hm : s.Mirrored bindingsId name) (hf : s.view.Filed)
    {actions : List Action} (hend : .shutdown ∉ actions)
    (hspares : ∀ a ∈ actions, a.SparesStorage) : (s.run actions).Mirrored bindingsId name := by
  induction actions generalizing s with
  | nil => exact hm
  | cons a rest ih =>
    rw [List.mem_cons, not_or] at hend
    have hone := hm.step_unfinished hf (Ne.symm hend.1) (hspares a List.mem_cons_self)
    exact ih hone (run_filed hf [a]) hend.2 fun b hb => hspares b (List.mem_cons_of_mem a hb)

/-- A step keeps the storage in step with the cache, unless it ends the session. -/
theorem Mirrored.step (hm : s.Mirrored bindingsId name) (hf : s.view.Filed) {a : Action}
    (hspares : a.SparesStorage) :
    (s.step a).2.Mirrored bindingsId name ∨ (s.step a).2.Retired := by
  by_cases hend : a = .shutdown
  · subst hend
    show s.shutdown.Mirrored bindingsId name ∨ s.shutdown.Retired
    rcases s.shutdown_retired with he | he
    · rw [he]
      exact Or.inl hm
    · exact Or.inr he
  · exact Or.inl (hm.step_unfinished hf hend hspares)

theorem run_mirrored (hs : s.Mirrored bindingsId name ∨ s.Retired) (hf : s.view.Filed)
    {actions : List Action} (hspares : ∀ a ∈ actions, a.SparesStorage) :
    (s.run actions).Mirrored bindingsId name ∨ (s.run actions).Retired := by
  induction actions generalizing s with
  | nil => exact hs
  | cons a rest ih =>
    refine ih ?_ (run_filed hf [a]) fun b hb => hspares b (List.mem_cons_of_mem a hb)
    rcases hs with hm | hr
    · exact hm.step hf (hspares a List.mem_cons_self)
    · exact Or.inr (hr.step hf a)

/-- A manager that starts over one empty backend has nothing cached, and nothing is stored but the
bindings. -/
theorem start_mirrored {w : World} (hw : w.Bare) {settings : Settings}
    (hs : start w settings = .ok s) : ∃ name, s.Mirrored settings.bindingsId name := by
  obtain ⟨name, hstocked, hempty⟩ := start_stocked hw hs
  refine ⟨name, hstocked, (start_storage hs).1, fun pid hr => ?_⟩
  have hnone : s.view.cached.get? pid = none := by
    rw [start_view hs]
    rfl
  rw [hempty pid hr, View.deposit?_of_absent hnone]

/-- **The storage mirrors the cache.**  Over one backend that was empty at the start, and whatever
writes fail: for every cached record, under a pid that is no id of the manager's own, the backend
holds exactly the dictionary of the record.  Of a member that was never updated it holds none. -/
theorem storage_mirrors_cache {w : World} (hw : w.Bare) {settings : Settings} {s : Session}
    (hs : start w settings = .ok s) {actions : List Action}
    (hspares : ∀ a ∈ actions, a.SparesStorage) {pid : String} {h : Handle}
    (hcached : (s.run actions).cache.record? pid = some h)
    (hfree : ¬Storage.Reserved settings.bindingsId pid) :
    ((s.run actions).record h).pid = pid ∧ ((s.run actions).record h).deleted = false ∧
      ∃ l, (s.run actions).storage.chain = [l] ∧
        (s.run actions).storage.held l.backend pid = ((s.run actions).record h).deposit := by
  have hf := run_filed (start_filed hs) actions
  obtain ⟨-, hpid, hundeleted⟩ := hf.held pid h hcached
  refine ⟨hpid, hundeleted, ?_⟩
  obtain ⟨name, hstart⟩ := start_mirrored hw hs
  rcases run_mirrored (Or.inl hstart) (start_filed hs) hspares with hm | hr
  · obtain ⟨rank, hchain⟩ := hm.chain
    exact ⟨_, hchain, (hm.mirrors pid hfree).trans (View.deposit?_of_cached hcached)⟩
  · have hnone : (s.run actions).view.cached.get? pid = none := by
      rw [hr.empty, Table.get?_empty]
    rw [show (s.run actions).view.cached.get? pid = some h from hcached] at hnone
    cases hnone

/-- A record is updated and moved while the writes of its pid fail in between, and its deletion
fails at the end. -/
def interrupted : List Action :=
  [.getOrCreate "pid" (some "here"),
    .update "pid" (Table.empty.put "Service.PID" (.text "other")),
    .around (.backend "" fun b => { b with unwritable := ["pid"] }),
    .setLocation "pid" (some "there"), .update "pid" .empty,
    .around (.backend "" fun b => { b with unwritable := [] }), .setLocation "pid" none,
    .around (.backend "" fun b => { b with failing := true }), .delete "pid"]

/-- The backend holds what the record came to with the changes that were stored. -/
theorem storage_mirrors_cache_interrupted :
    ∃ s, World.Bare {} ∧ start {} {} = .ok s ∧ (∀ a ∈ interrupted, a.SparesStorage) ∧
      ¬Storage.Reserved ({} : Settings).bindingsId "pid" ∧
      (s.run interrupted).cache.record? "pid" = some 0 ∧
      ((s.run interrupted).record 0).staticLocation = none ∧
      ((s.run interrupted).record 0).counter = 2 ∧
      (s.run interrupted).storage.held "" "pid" =
        some ((s.run interrupted).record 0).persisted := by
  have hw : World.Bare {} := Or.inl rfl
  obtain ⟨s, hs⟩ : ∃ s, start {} {} = .ok s := ⟨_, rfl⟩
  have hspares : ∀ a ∈ interrupted, a.SparesStorage := by
    simp [interrupted, Action.SparesStorage]
  have hfree : ¬Storage.Reserved ({} : Settings).bindingsId "pid" := by
    rintro (h | ⟨f, h⟩)
    · exact absurd h (by decide)
    · have hlen := congrArg String.length h
      rw [Roster.idOf, String.length_append] at hlen
      have hpid : "pid".length = 3 := rfl
      have hsuffix : ".factory".length = 8 := rfl
      omega
  have hall : (s.run interrupted).cache.record? "pid" = some 0 ∧
      ((s.run interrupted).record 0).staticLocation = none ∧
      ((s.run interrupted).record 0).counter = 2 ∧
      ((s.run interrupted).record 0).factoryPid = none ∧
      (s.run interrupted).storage.chain = [⟨0, ""⟩] := by
    cases hs
    decide
  obtain ⟨hcached, hlocation, hcounter, hsingle, hchain⟩ := hall
  obtain ⟨-, -, l, hl, hheld⟩ := storage_mirrors_cache hw hs hspares hcached hfree
  rw [hchain] at hl
  cases hl
  refine ⟨s, hw, hs, hspares, hfree, hcached, hlocation, hcounter, hheld.trans ?_⟩
  rw [Record.deposit, hsingle]
  rfl

end Session
end Provisioning
