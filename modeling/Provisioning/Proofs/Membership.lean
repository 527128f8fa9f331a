import Provisioning.Proofs.Restart
import Provisioning.Proofs.Staff

/-! # The members of a factory

A member joins the roster of its factory with its first update, and is struck off by the task that
its deletion queues; or before, by a consumer that is attached to the factory in between.  So while
tasks wait a roster may list members that are gone.  When none waits, it lists just the members
that are there, and what is stored of it says the same.

That nobody else is listed rests on what is looked up: a roster that is not cached is not stored
either, where nothing fails, so that whoever is found on a roster has joined it in this session.
-/
namespace Provisioning

open Relation (ReflTransGen)

namespace View

variable {v v' v'' : View}

/-- Nobody is listed who was not before. -/
def Dwindles (v v' : View) : Prop := ∀ f pid, v'.lists f pid = true → v.lists f pid = true

/-- Whoever is listed and was not before is a member with properties. -/
def Recruits (v v' : View) : Prop :=
  ∀ f pid, v'.lists f pid = true → v.lists f pid = true ∨ v'.HasActive f pid

theorem Dwindles.refl (v : View) : v.Dwindles v := fun _ _ h => h

theorem Dwindles.trans (h : v.Dwindles v') (h' : v'.Dwindles v'') : v.Dwindles v'' :=
  fun f pid hl => h f pid (h' f pid hl)

theorem Dwindles.recruits (h : v.Dwindles v') : v.Recruits v' := fun f pid hl => Or.inl (h f pid hl)

theorem dwindles_of_rosters (hr : v'.rosters = v.rosters) : v.Dwindles v' := fun f pid hl => by
  rw [lists_of_rosters hr] at hl
  exact hl

/-- A roster takes the place of another one that lists as many or more. -/
theorem dwindles_file {r : Roster}
    (hr : ∀ pid, r.contains pid = true → v.lists r.factoryPid pid = true) :
    v.Dwindles (v.file r) := by
  intro f pid hl
  rw [lists_file] at hl
  split at hl
  · next he => exact he ▸ hr pid hl
  · exact hl

/-- What neither looks things up nor works leaves the rosters alone. -/
theorem Deal.rosters {admits : Record → Prop} {a : Action} (hd : Deal admits a v v')
    (hl : a.looksUp = false) (hwork : a ≠ .runUpdate) (hend : a ≠ .shutdown) :
    v'.rosters = v.rosters := by
  cases hd with
  | nothing | around | extend => rfl
  | call administrative =>
    rw [Action.looksUp_of_administrative administrative] at hl
    cases hl
  | register => cases hl
  | withdraw forgotten =>
    refine keep_of_steps (K := fun u => u.rosters = v.rosters) (fun u u' ho hu => ?_) forgotten rfl
    cases ho with
    | forget => exact hu
  | uninstall released =>
    refine keep_of_steps (K := fun u => u.rosters = v.rosters) (fun u u' hr hu => ?_) released rfl
    cases hr with
    | release =>
      rw [enqueue_eq]
      exact hu
  | submit => rw [enqueue_eq]
  | work => exact absurd rfl hwork
  | stop => exact absurd rfl hend

end View

/-- Only a retraction strikes anybody off. -/
theorem TaskEffects.rosters {t : Task} {v v' : View} (hd : TaskEffects t v v')
    (ht : ∀ h owner, t ≠ .retract h owner) : v'.rosters = v.rosters := by
  refine hd.keep (K := fun u => u.rosters = v.rosters) (fun u u' heffect hu => ?_) rfl
  cases heffect with
  | bind | serve | advance | revoke | greet | greetEmpty => exact hu
  | retract | strike => exact absurd rfl (ht _ _)

namespace Session

variable {scope : Scope} {bindingsId name : String} {s s' : Session}

/-! ### What is stored is known -/

/-- Every roster that is stored is cached. -/
def KnowsRosters (name : String) (s : Session) : Prop :=
  ∀ f, s.view.rosters.get? f = none → s.storage.held name (Roster.idOf f) = none

theorem Posts.knowsRosters (hp : s.Posts s') (h : s.KnowsRosters name) : s'.KnowsRosters name := by
  -- a roster that is filed is cached from then on, and none other is stored
  have hfile : ∀ {r : Roster}, s'.view = s.view.file r →
      (∀ f, f ≠ r.factoryPid →
        s'.storage.held name (Roster.idOf f) = s.storage.held name (Roster.idOf f)) →
      s'.KnowsRosters name := by
    intro r view held f hf
    have hget : s'.view.rosters.get? f =
        if f = r.factoryPid then some r else s.view.rosters.get? f := by
      rw [view]
      exact Table.get?_put s.view.rosters r.factoryPid f r
    rw [hget] at hf
    split at hf
    · cases hf
    · next hne =>
      rw [held f hne]
      exact h f hf
  cases hp with
  | rest rosters held =>
    intro f hf
    rw [rosters] at hf
    rw [held name f]
    exact h f hf
  | found _ view storage | lag _ _ _ view storage => exact hfile view fun f _ => by rw [storage]
  | enlist _ _ stored view => exact hfile view fun f hne => held_storeRoster stored hne name

/-- A session without failures that knows every roster there is. -/
structure Informed (bindingsId name : String) (s : Session) : Prop
    extends s.Saved bindingsId name where
  known : s.KnowsRosters name

theorem Strokes.informed (hs : Strokes scope s s') (hap : scope.Apart bindingsId)
    (h : s.Informed bindingsId name) : s'.Informed bindingsId name := by
  induction hs with
  | refl => exact h
  | tail _ hlast ih =>
    exact ⟨hlast.single.saved hap ih.toSaved, (hlast.posts (ih.id.symm ▸ hap)).knowsRosters
      ih.known⟩

namespace Informed

/-! ### Nobody is found on a roster who was not known -/

/-- A roster that is not cached is empty. -/
theorem factory (h : s.Informed bindingsId name) (f : String) :
    s.view.Dwindles (s.factory f).2.view := by
  unfold Session.factory
  split
  · exact .refl _
  · next hr =>
    rw [h.bindings.sound.firstHaving, h.known f hr, Option.map_none]
    dsimp only
    split
    · exact View.dwindles_file fun pid hc => absurd hc (by simp [Roster.contains])
    · exact .refl _

/-- A roster that is pruned loses members. -/
theorem dwindles_prune {before after : Roster} {f : String}
    (hv : s.view.Filed) (hknown : s.view.rosters.get? f = some before)
    (hnamed : after.factoryPid = before.factoryPid)
    (hshrunk : ∀ pid, after.contains pid = true → before.contains pid = true) :
    s.view.Dwindles (s.prune before after).view := by
  have hfile : s.view.Dwindles (s.view.file after) := by
    refine View.dwindles_file fun pid hc => ?_
    rw [hnamed, hv.titled f before hknown, View.lists, hknown]
    exact hshrunk pid hc
  unfold Session.prune
  split
  · dsimp only
    split
    · exact hfile
    · exact hfile
  · exact .refl _

theorem attachMembers (h : s.Informed bindingsId name) (c : Consumer) (f : String) :
    s.view.Dwindles (s.attachMembers c f).view := by
  have hfac := h.factory f
  unfold Session.attachMembers
  split
  · next e s₁ he =>
    rw [he] at hfac
    exact hfac
  · next r s₁ he =>
    obtain ⟨⟨-, hclosed⟩, hknown, -⟩ := (closed_of_filed h.filed).factory_ok he
    rw [he] at hfac
    have hcall := hclosed.musterAll f (hclosed.filed.distinct f r hknown) { roster := r }
    dsimp only
    generalize musterAll f r.members { roster := r } s₁ = result at hcall
    obtain ⟨roll, s₂⟩ := result
    have hprune : s₂.view.Dwindles (s₂.prune r roll.roster).view :=
      dwindles_prune hcall.closed.filed ((congrArg (fun t => t.get? f) hcall.rosters).trans hknown)
        hcall.named hcall.shrunk
    have hqueue : (s₂.prune r roll.roster).view.Dwindles
        ((s₂.prune r roll.roster).schedule (.attachFactory c f roll.snapshots)).view :=
      View.dwindles_of_rosters (by rw [view_schedule, View.enqueue_eq])
    exact (hfac.trans (View.dwindles_of_rosters hcall.rosters)).trans (hprune.trans hqueue)

theorem attachTo (h : s.Informed bindingsId name) (c : Consumer) (identity : String) :
    s.view.Dwindles (s.attachTo c identity).view := by
  unfold Session.attachTo
  split
  · refine View.dwindles_of_rosters ?_
    unfold Session.attachSingle
    rw [view_schedule, View.enqueue_eq]
    exact s.configuration_rosters identity
  · exact h.attachMembers c identity

theorem consumerRegistered (h : s.Informed bindingsId name) (hap : scope.Apart bindingsId)
    (hw : scope.Wide) (c : Consumer) : s.view.Dwindles (s.consumerRegistered c).view := by
  have hall : ∀ (identities : List String) {s : Session}, s.Informed bindingsId name →
      s.view.Dwindles (identities.foldl (fun s pid => s.attachTo c pid) s).view := by
    intro identities
    induction identities with
    | nil => exact fun _ => .refl _
    | cons identity rest ih =>
      intro s h
      have hone : Strokes scope s (s.attachTo c identity) := by
        unfold Session.attachTo
        split
        · exact attachSingle_strokes h.filed hw c identity
        · exact attachMembers_strokes h.filed hw c identity
      exact (h.attachTo c identity).trans (ih (hone.informed hap h))
  unfold Session.consumerRegistered
  split
  · exact hall c.service.pids h
  · exact .refl _

/-! ### Joining and leaving -/

/-- Nobody joins but the record itself. -/
theorem join (h : s.Informed bindingsId name) (i : Handle) (f pid : String)
    (hl : (s.join i).2.view.lists f pid = true) :
    s.view.lists f pid = true ∨ ((s.join i).1 = .ok () ∧
      (s.record i).factoryPid = some f ∧ pid = (s.record i).pid) := by
  have hcourse := s.joining i
  generalize s.join i = result at hcourse hl ⊢
  cases hcourse with
  | single => exact Or.inl hl
  | @refused f' => exact Or.inl (h.factory f' f pid hl)
  | @listed f' r s₁ factory found =>
    have hfac := h.factory f'
    rw [found] at hfac
    exact Or.inl (hfac f pid hl)
  | @joined f' r s₁ storage factory found =>
    have hfac := h.factory f'
    obtain ⟨-, hknown, hname⟩ := (closed_of_filed h.filed).factory_ok found
    rw [found] at hfac
    replace hl : (s₁.view.file (r.add (s.record i).pid)).lists f pid = true := hl
    rw [View.lists_file, r.factoryPid_add, hname] at hl
    split at hl
    · next he =>
      subst he
      rcases r.contains_add.mp hl with rfl | hc
      · exact Or.inr ⟨rfl, factory, rfl⟩
      · refine Or.inl (hfac f pid ?_)
        rw [View.lists, hknown]
        exact hc
    · exact Or.inl (hfac f pid hl)

/-- Whoever is struck off is not listed any more, and nobody else is who was not before. -/
theorem expel (h : s.Informed bindingsId name) (pid f : String) :
    s.view.Dwindles (s.expel pid f).view ∧ (s.expel pid f).view.lists f pid = false := by
  have hfac := h.factory f
  obtain ⟨-, -, herr⟩ := s.factory_spec f fun _ _ => False
  unfold Session.expel
  split
  · next e s₁ he =>
    rw [he] at hfac herr
    obtain ⟨hsame, hnone⟩ := herr e rfl
    dsimp only at hsame
    refine ⟨hfac, ?_⟩
    rw [hsame, View.lists, hnone]
    rfl
  · next r s₁ he =>
    obtain ⟨-, hknown, hname⟩ := (closed_of_filed h.filed).factory_ok he
    rw [he] at hfac
    split
    · have hremove : s₁.view.Dwindles (s₁.view.file (r.remove pid)) := by
        refine View.dwindles_file fun pid' hc => ?_
        rw [show (r.remove pid).factoryPid = f from hname, View.lists, hknown]
        exact (r.contains_remove.mp hc).1
      have hgone : (s₁.view.file (r.remove pid)).lists f pid = false := by
        rw [View.lists_file, show (r.remove pid).factoryPid = f from hname, if_pos rfl]
        exact Bool.eq_false_iff.mpr fun hc => (r.contains_remove.mp hc).2 rfl
      dsimp only
      split
      · exact ⟨hfac.trans hremove, hgone⟩
      · exact ⟨hfac.trans hremove, hgone⟩
    · next hno =>
      refine ⟨hfac, ?_⟩
      rw [View.lists, hknown]
      exact Bool.eq_false_iff.mpr hno

/-- A retraction strikes its record off. -/
theorem retract (h : s.Informed bindingsId name) (hap : scope.Apart bindingsId) (i : Handle)
    (owner : Option String) :
    s.view.Dwindles (s.retract i owner).view ∧ ∀ f, (s.record i).factoryPid = some f →
      (s.retract i owner).view.lists f (s.record i).pid = false := by
  have hbutMarks := foldl_sameButMarks
    (fun s' c => s'.retractFrom_sameButMarks i (s.record i).target owner c)
    ((s.record i).target.resolve s.directory) s
  have hrosters := View.dwindles_of_rosters hbutMarks.rosters
  have hstrokes : Strokes scope s _ := hbutMarks.strokes
  have hloop := hstrokes.informed hap h
  unfold Session.retract
  dsimp only
  split
  · next f hf =>
    obtain ⟨hdwindles, hgone⟩ := hloop.expel (s.record i).pid f
    refine ⟨hrosters.trans hdwindles, fun f' hf' => ?_⟩
    rw [hf] at hf'
    cases hf'
    exact hgone
  · next hf =>
    refine ⟨hrosters, fun f' hf' => ?_⟩
    rw [hf] at hf'
    cases hf'

end Informed

/-! ### Whoever is listed has joined -/

theorem require_rosters (s : Session) (pid : String) :
    (s.require pid).2.view.rosters = s.view.rosters := by
  rw [(s.require_spec pid).1]
  exact s.configuration_rosters pid

theorem keepRecord_rosters (s : Session) (r : Record) :
    (s.keepRecord r).2.view.rosters = s.view.rosters := by
  unfold keepRecord Cache.adopt
  dsimp only
  split <;> rfl

theorem getOrCreate_rosters (s : Session) (pid : String) (location : Option String) :
    (s.getOrCreate pid location).2.view.rosters = s.view.rosters := by
  have hconf := s.configuration_rosters pid
  have hcourse := s.creating pid location
  generalize s.getOrCreate pid location = result at hcourse ⊢
  cases hcourse with
  | refused looked =>
    rcases looked with rfl | rfl
    · rfl
    · exact hconf
  | found => exact hconf
  | @made s₁ home r storage absent primary new stored =>
    rw [absent] at hconf
    exact (keepRecord_rosters { s₁ with storage } r).trans hconf

theorem minting_rosters {f : String} {location : Option String} {names : List String}
    {result : Except AdminError (Option Handle) × Session}
    (hcourse : Minting f location s names result) :
    result.2.view.rosters = s.view.rosters := by
  induction hcourse with
  | exhausted => rfl
  | @refused s pid => exact s.configuration_rosters pid
  | @taken s pid rest result next ih => exact ih.trans (s.configuration_rosters pid)
  | @made s s₁ pid home rest r absent primary new =>
    have hconf := s.configuration_rosters pid
    rw [absent] at hconf
    exact (s₁.keepRecord_rosters r).trans hconf

theorem Informed.createMember (h : s.Informed bindingsId name) (f : String)
    (location : Option String) (names : List String) :
    s.view.Dwindles (s.createMember f location names).2.view := by
  have hfac := h.factory f
  have hcourse := s.recruiting f location names
  generalize s.createMember f location names = result at hcourse ⊢
  cases hcourse with
  | refused looked =>
    rcases looked with rfl | rfl
    · exact .refl _
    · exact hfac
  | minted hcourse => exact hfac.trans (View.dwindles_of_rosters (minting_rosters hcourse))

theorem delete_rosters (s : Session) (pid : String) :
    (s.delete pid).2.view.rosters = s.view.rosters := by
  have hreq := s.require_rosters pid
  have hcourse := s.deleting pid
  generalize s.delete pid = result at hcourse ⊢
  cases hcourse with
  | refused looked =>
    rcases looked with rfl | rfl
    · rfl
    · exact hreq
  | @deleted h s₁ storage running required stored =>
    rw [required] at hreq
    refine Eq.trans ?_ hreq
    unfold discard
    dsimp only
    rw [view_schedule, View.enqueue_eq, view_announce]
    rfl

theorem setLocation_rosters (s : Session) (pid : String) (location : Option String) :
    (s.setLocation pid location).2.view.rosters = s.view.rosters := by
  have hreq := s.require_rosters pid
  have hcourse := s.settling pid location
  generalize s.setLocation pid location = result at hcourse ⊢
  cases hcourse with
  | refused looked =>
    rcases looked with rfl | rfl
    · rfl
    · exact hreq
  | @settled h s₁ storage required stored =>
    rw [required] at hreq
    obtain ⟨waiting, hview⟩ := view_resettle { s₁ with storage } h pid location
    dsimp only
    rw [hview]
    exact hreq

/-- After a cached record joined its factory, there is nothing that could keep it from being
stored. -/
theorem Informed.storable (h : s.Informed bindingsId name) (hm : s.Mirrored bindingsId name)
    (hap : scope.Apart bindingsId) (hw : scope.Wide) {i : Handle} {pid : String} {s₁ : Session}
    (hc : s.view.cached.get? pid = some i) (joined : s.join i = (.ok (), s₁)) (d : Properties) :
    ∃ storage, s₁.storage.store (s₁.record i).home pid d = .ok storage := by
  have hm₁ := hm.join i
  have hlooks := ((closed_of_filed h.filed).join i).1
  have hjoin : Strokes scope s (s.join i).2 := join_strokes h.filed fun f _ => hw.factories f
  rw [joined] at hm₁ hlooks hjoin
  rw [hm₁.homes pid i (hlooks.extends.cached pid i hc)]
  exact (hjoin.informed hap h).bindings.sound.exists_store pid d

/-- A member has properties once they are committed. -/
theorem hasActive_commit (hv : s.view.Filed) {i : Handle} {f pid : String} (p : Properties)
    (hc : s.view.cached.get? pid = some i) (hf : (s.record i).factoryPid = some f) :
    (s.commit i p).view.HasActive f pid := by
  rw [view_commit]
  exact (View.calm_enqueue _ fun _ _ he => by cases he).hasActive.mpr
    (View.hasActive_commit hv hc hf)

/-- Whoever joins its factory is updated then: nothing fails in between. -/
theorem Informed.update (h : s.Informed bindingsId name) (hm : s.Mirrored bindingsId name)
    (hap : scope.Apart bindingsId) (hw : scope.Wide) (pid : String) (p : Properties) :
    s.view.Recruits (s.update pid p).2.view := by
  obtain ⟨hsame, hcached⟩ := hm.require_eq pid
  have hcourse := s.updating pid p
  generalize s.update pid p = result at hcourse ⊢
  cases hcourse with
  | refused looked =>
    rcases looked with rfl | rfl
    · exact (View.Dwindles.refl _).recruits
    · exact (View.dwindles_of_rosters (s.require_rosters pid)).recruits
  | @unjoined i s₁ s₂ e required unjoined =>
    rw [required] at hsame
    obtain rfl : s₁ = s := hsame
    intro f pid' hl
    have hjoin := h.join i f pid'
    rw [unjoined] at hjoin
    exact Or.inl ((hjoin hl).resolve_right fun hx => by cases hx.1)
  | @unstored i s₁ s₂ e required joined unstored =>
    rw [required] at hsame hcached
    obtain rfl : s₁ = s := hsame
    obtain ⟨st, hst⟩ := h.storable hm hap hw (hcached i rfl) joined ((s₂.record i).persistedWith p)
    rw [hst] at unstored
    cases unstored
  | @updated i s₁ s₂ storage required joined stored =>
    rw [required] at hsame hcached
    obtain rfl : s₁ = s := hsame
    have hc := hcached i rfl
    obtain ⟨hlt, hpid, -⟩ := h.filed.held pid i hc
    have hlooks := ((closed_of_filed h.filed).join i).1
    have hjoin := h.join i
    rw [joined] at hlooks hjoin
    intro f pid' hl
    have hl₂ : s₂.view.lists f pid' = true := by
      dsimp only at hl
      rw [view_commit, View.lists_of_rosters (v := s₂.view) (by rw [View.enqueue_eq]; rfl)] at hl
      exact hl
    rcases hjoin f pid' hl₂ with hold | ⟨-, hf, rfl⟩
    · exact Or.inl hold
    · -- the record that joined has properties now
      refine Or.inr (hasActive_commit (s := { s₂ with storage }) hlooks.closed.filed p ?_ ?_)
      · exact (congrArg _ hpid).trans (hlooks.extends.cached pid i hc)
      · exact (congrArg Record.factoryPid (hlooks.extends.record_eq hlt)).trans hf

/-- **Whoever is listed has joined**, by calls and hooks. -/
theorem Informed.occurrence (h : s.Informed bindingsId name) (hm : s.Mirrored bindingsId name)
    (hap : scope.Apart bindingsId) (hw : scope.Wide) {a : Action} (hwork : a ≠ .runUpdate)
    (hend : a ≠ .shutdown) : s.view.Recruits (s.step a).2.view := by
  rcases a.kinds with ha | ⟨c, rfl⟩ | rfl | ⟨hl, -⟩
  · cases a with
    | getOrCreate pid location =>
      exact (View.dwindles_of_rosters (s.getOrCreate_rosters pid location)).recruits
    | getExisting pid =>
      refine (View.dwindles_of_rosters ?_).recruits
      rcases s.getExisting_looks pid with he | he
      · exact congrArg (fun s => s.view.rosters) he
      · exact (congrArg (fun s => s.view.rosters) he).trans (s.configuration_rosters pid)
    | createMember f location names => exact (h.createMember f location names).recruits
    | members f =>
      refine View.Dwindles.recruits ?_
      show s.view.Dwindles (s.members f).2.view
      rcases s.members_looks f with he | he
      · rw [he]
        exact .refl _
      · rw [he]
        exact h.factory f
    | list filter => exact (View.Dwindles.refl _).recruits
    | update pid p => exact h.update hm hap hw pid p
    | delete pid => exact (View.dwindles_of_rosters (s.delete_rosters pid)).recruits
    | setLocation pid location =>
      exact (View.dwindles_of_rosters (s.setLocation_rosters pid location)).recruits
    | getLocation pid =>
      refine (View.dwindles_of_rosters ?_).recruits
      rcases s.getLocation_looks pid with he | he
      · exact congrArg (fun s => s.view.rosters) he
      · exact (congrArg (fun s => s.view.rosters) he).trans (s.configuration_rosters pid)
    | consumerRegistered | consumerWithdrawn | listenerRegistered | listenerWithdrawn
    | locationUninstalled | submit | addPlugin | removePlugin | around | runUpdate | runNotice
    | shutdown => cases ha
  · exact (h.consumerRegistered hap hw c).recruits
  · exact absurd rfl hend
  · exact (View.dwindles_of_rosters ((step_deal h.filed a).rosters hl hwork hend)).recruits

/-! ### Steps and runs -/

/-- A session without failures whose rosters list members with properties, all of them, and members
that are leaving. -/
structure Manned (bindingsId name : String) (s : Session) : Prop
    extends s.Informed bindingsId name where
  tidy : s.Tidy
  mirrored : s.Mirrored bindingsId name
  staffed : s.view.Staffed
  listable : ∀ f pid, s.view.lists f pid = true → s.view.Listable f pid

/-- The work of the update worker strikes off whoever is leaving in the task that is run. -/
theorem Manned.listable_runUpdate (h : s.Manned bindingsId name) (hap : scope.Apart bindingsId)
    (f pid : String) (hl : s.runUpdate.view.lists f pid = true) :
    s.runUpdate.view.Listable f pid := by
  cases hline : s.view.waiting with
  | nil =>
    rw [s.runUpdate_idle hline] at hl ⊢
    exact h.listable f pid hl
  | cons t rest =>
    have hstrokes : Strokes scope s { s with updates := s.updates.pop } :=
      s.pop_sameButMarks.strokes
    have hpop := hstrokes.informed hap h.toInformed
    have hview := s.view_pop hline
    rw [s.runUpdate_busy hline] at hl ⊢
    generalize ({ s with updates := s.updates.pop } : Session) = s₁ at hpop hview hl ⊢
    -- whoever is listed after the task was listed before it
    have hbefore : s.view.lists f pid = true := by
      have hlists : s₁.view.lists f pid = true := by
        by_cases ht : ∃ i owner, t = .retract i owner
        · obtain ⟨i, owner, rfl⟩ := ht
          exact (hpop.retract hap i owner).1 f pid hl
        · rw [View.lists_of_rosters ((s₁.perform_taskEffects t).rosters fun i owner he =>
            ht ⟨i, owner, he⟩)] at hl
          exact hl
      rw [hview] at hlists
      exact hlists
    rcases View.listable_pop hline (h.listable f pid hbefore) with hkept | ⟨i, owner, rfl, hp, hf⟩
    · have hst := (s₁.perform_taskEffects t).steady
      have hcarries := hst.calm.carries fun i owner hw => hst.waiting.symm ▸ hw
      rw [← hview] at hkept
      exact hcarries f pid hkept
    · -- the member that was leaving has left
      have hrec : s₁.record i = s.record i := by
        rw [← record_view, hview]
        rfl
      have hgone := (hpop.retract hap i owner).2 f ((congrArg Record.factoryPid hrec).trans hf)
      rw [hrec, show (s.record i).pid = pid from hp] at hgone
      exact absurd hl (Bool.eq_false_iff.mp hgone)

/-- **Steps keep the rosters manned**, as long as no new member is given the name of one that is
leaving. -/
theorem Manned.step (h : s.Manned bindingsId name) (hid : ∀ f, Roster.idOf f ≠ bindingsId)
    {a : Action} (ha : Within (.plain bindingsId) a)
    (hnames : ∀ pid ∈ a.names, ∀ f, ¬s.view.Fading pid f) :
    (s.step a).2.Manned bindingsId name := by
  have hap := Scope.plain_apart hid
  have hw := Scope.plain_wide bindingsId
  have hstrokes := step_strokes h.tidy hw ha
  have hclosed : s.Closed (Record.Admissible s.view.Fading) := h.mirrored.closed h.filed
  have hdeal := hclosed.step_deal a fun r hb hnew =>
    ⟨hb, fun f hf => hnew.elim (fun hn => by rw [hn] at hf; cases hf)
      fun hm => hnames r.pid hm f⟩
  obtain ⟨hstaffed, hcarries⟩ :=
    hdeal.staffed h.staffed (fun _ _ hf => hf) ha.unsubmitted ha.unfinished
  refine ⟨hstrokes.informed hap h.toInformed, hstrokes.tidy h.tidy,
    h.mirrored.step_unfinished h.filed ha.unfinished ha.spares, hstaffed, fun f pid hl => ?_⟩
  by_cases hwork : a = .runUpdate
  · subst hwork
    exact h.listable_runUpdate hap f pid hl
  · rcases h.toInformed.occurrence h.mirrored hap hw hwork ha.unfinished f pid hl with hold | hnew
    · exact hcarries hwork f pid (h.listable f pid hold)
    · exact Or.inl hnew

/-- Names for new members are drawn at random: none is that of a member which was deleted, and is
still to be struck off. -/
def DrawsAnew (s : Session) : List Action → Prop
  | [] => True
  | a :: rest => (∀ pid ∈ a.names, ∀ f, ¬s.view.Fading pid f) ∧ (s.step a).2.DrawsAnew rest

theorem Manned.run (h : s.Manned bindingsId name) (hid : ∀ f, Roster.idOf f ≠ bindingsId)
    {actions : List Action} (hplain : ∀ a ∈ actions, Within (.plain bindingsId) a)
    (hdraws : s.DrawsAnew actions) : (s.run actions).Manned bindingsId name := by
  induction actions generalizing s with
  | nil => exact h
  | cons a rest ih =>
    exact ih (h.step hid (hplain a List.mem_cons_self) hdraws.1)
      (fun b hb => hplain b (List.mem_cons_of_mem a hb)) hdraws.2

/-- A manager that starts over one empty backend has no rosters, and nobody to list. -/
theorem start_manned {w : World} {l : Link} (hchain : w.storage.chain = [l])
    (hempty : w.storage.backend l.backend = {}) {settings : Settings}
    (hid : ∀ f, Roster.idOf f ≠ settings.bindingsId) (hs : start w settings = .ok s) :
    s.Manned settings.bindingsId l.backend := by
  obtain ⟨hsaved, hunlisted⟩ := start_saved_of_empty hchain hempty hid hs
  obtain ⟨name, hmirrored⟩ :=
    start_mirrored (Or.inr ⟨l, hchain, congrArg Backend.dictionaries hempty⟩) hs
  obtain rfl : name = l.backend := (hmirrored.home_eq hsaved.bindings.sound.primary).symm
  have hview := start_view hs
  have hcached : ∀ pid, s.view.cached.get? pid = none := fun pid => by
    rw [hview]
    rfl
  refine ⟨⟨hsaved, fun f _ => hunlisted f⟩, start_tidy hs, hmirrored,
    ⟨start_filed hs, by rw [hview], fun i owner hw => ?_, ?_, ?_⟩, fun f pid hl => ?_⟩
  · rw [hview] at hw
    exact absurd hw List.not_mem_nil
  · rintro f pid ⟨i, hc, -⟩
    rw [hcached] at hc
    cases hc
  · rintro f pid ⟨i, hc, -⟩
    rw [hcached] at hc
    cases hc
  · rw [View.lists, hview] at hl
    cases hl

/-- What there is of a factory whose roster is cached: the roster lists the members that are there,
and what is stored of it lists the same. -/
structure Accounts (s : Session) (name f : String) (r : Roster) : Prop where
  members : ∀ pid, pid ∈ r.members ↔ ∃ h, s.cache.record? pid = some h ∧
    (s.record h).deleted = false ∧ (s.record h).factoryPid = some f ∧
      (s.record h).properties ≠ none
  stored : ∀ d, s.storage.held name (Roster.idOf f) = some d →
    ∃ r', Roster.load f name s.storage = .ok r' ∧ r'.members = r.members
  unstored : s.storage.held name (Roster.idOf f) = none → r.members = []

/-- What there is of a factory whose roster is not cached: no member has properties, and no roster
is stored. -/
structure Vacant (s : Session) (name f : String) : Prop where
  members : ∀ pid h, s.cache.record? pid = some h → (s.record h).factoryPid = some f →
    (s.record h).properties = none
  unstored : s.storage.held name (Roster.idOf f) = none

/-- While nobody is leaving, just the members with properties are listed. -/
theorem Manned.lists_iff (h : s.Manned bindingsId name) (hdone : s.updates.waiting = [])
    {f pid : String} : s.view.lists f pid = true ↔ s.view.HasActive f pid := by
  refine ⟨fun hl => (h.listable f pid hl).resolve_right ?_, h.staffed.listed f pid⟩
  rintro ⟨i, owner, hw, -⟩
  rw [show s.view.waiting = [] from hdone] at hw
  exact absurd hw List.not_mem_nil

theorem Manned.accounts (h : s.Manned bindingsId name) (hdone : s.updates.waiting = [])
    {f : String} {r : Roster} (hr : s.cache.roster? f = some r) : s.Accounts name f r := by
  have hknown : s.view.rosters.get? f = some r := hr
  obtain ⟨-, hmembers⟩ := h.rosters.known f r hknown
  have hsorted := h.rosters.sorted f
  refine ⟨fun pid => ?_, fun d hd => ?_, fun hd => ?_⟩
  · have hlists : pid ∈ r.members ↔ s.view.lists f pid = true := by
      rw [View.lists, hknown, Option.any_some, Roster.contains, List.contains_iff_mem]
    rw [hlists, h.lists_iff hdone]
    constructor
    · rintro ⟨i, hc, hf, hp⟩
      exact ⟨i, hc, (h.filed.held pid i hc).2.2, hf, hp⟩
    · rintro ⟨i, hc, -, hf, hp⟩
      exact ⟨i, hc, hf, hp⟩
  · rw [Storage.enlisted, hd, Option.map_some, Option.getD_some] at hmembers hsorted
    refine ⟨_, h.bindings.sound.roster hd, ?_⟩
    rw [Roster.ofList_sorted hsorted]
    exact hmembers.symm
  · rw [hmembers, Storage.enlisted, hd]
    rfl

theorem Manned.vacant (h : s.Manned bindingsId name) {f : String}
    (hr : s.cache.roster? f = none) : s.Vacant name f := by
  have hunknown : s.view.rosters.get? f = none := hr
  refine ⟨fun pid i hc hf => ?_, h.known f hunknown⟩
  by_contra hp
  -- a member with properties would be listed
  have hl := h.staffed.listed f pid ⟨i, hc, hf, hp⟩
  rw [View.lists, hunknown] at hl
  cases hl

/-- **Factory membership.**  Over one backend that is empty at first and fails at nothing, and under
ids that do not collide, whatever the order of calls, hooks and work, and whoever is deleted in
between: when no task waits, the cached roster of a factory lists exactly the pids of its records
that are cached, are not deleted and have properties.  If a roster is stored, then loading it gives
the same members, and if none is, there are no members.  A factory whose roster is not cached has
none stored, and no member with properties. -/
theorem rosters_list_members {w : World} {l : Link} (hchain : w.storage.chain = [l])
    (hempty : w.storage.backend l.backend = {}) {settings : Settings}
    (hid : ∀ f, Roster.idOf f ≠ settings.bindingsId) (hs : start w settings = .ok s)
    {actions : List Action} (hplain : ∀ a ∈ actions, Within (.plain settings.bindingsId) a)
    (hdraws : s.DrawsAnew actions) (hdone : (s.run actions).updates.waiting = []) (f : String) :
    (∀ r, (s.run actions).cache.roster? f = some r →
      (s.run actions).Accounts l.backend f r) ∧
    ((s.run actions).cache.roster? f = none → (s.run actions).Vacant l.backend f) := by
  have hmanned := (start_manned hchain hempty hid hs).run hid hplain hdraws
  exact ⟨fun r hr => hmanned.accounts hdone hr, fun hr => hmanned.vacant hr⟩

/-- Nobody draws names. -/
theorem DrawsAnew.of_unnamed {actions : List Action} (hn : ∀ a ∈ actions, a.names = []) :
    s.DrawsAnew actions := by
  induction actions generalizing s with
  | nil => trivial
  | cons a rest ih =>
    refine ⟨fun pid hp => ?_, ih fun b hb => hn b (List.mem_cons_of_mem a hb)⟩
    rw [hn a List.mem_cons_self] at hp
    exact absurd hp List.not_mem_nil

/-- A factory has two members.  One is deleted, and before it is struck off, a configuration of its
own is made under its pid; then the other one is updated again. -/
def replaced : List Action :=
  [.createMember "lamps" none ["lamp"], .createMember "lamps" none ["light"],
    .update "lamp" .empty, .update "light" .empty, .runUpdate, .runUpdate, .delete "lamp",
    .getOrCreate "lamp" none, .update "lamp" .empty, .update "light" .empty, .runUpdate,
    .runUpdate, .runUpdate]

/-- The other member is left on the roster, and the configuration is not. -/
theorem rosters_list_members_replaced :
    ∃ s r, start { storage := ownStorage } {} = .ok s ∧
      (s.run replaced).cache.roster? "lamps" = some r ∧
      (s.run replaced).cache.record? "lamp" ≠ none ∧ "lamp" ∉ r.members ∧
      "light" ∈ r.members ∧
      ∃ r', Roster.load "lamps" "" (s.run replaced).storage = .ok r' ∧ r'.members = r.members := by
  obtain ⟨s, hs⟩ : ∃ s, start { storage := ownStorage } {} = .ok s := ⟨_, rfl⟩
  have hplain : ∀ a ∈ replaced, Within (.plain ({} : Settings).bindingsId) a :=
    within_plain (by simp [replaced]) (by simp [replaced]) (by simp [replaced]) (by decide)
  have hdraws : s.DrawsAnew replaced := by
    have hidle : ∀ {s' : Session}, s'.updates.waiting = [] → ∀ pid f, ¬s'.view.Fading pid f := by
      rintro s' hw pid f ⟨i, owner, hm, -⟩
      rw [show s'.view.waiting = [] from hw] at hm
      exact absurd hm List.not_mem_nil
    refine ⟨fun pid _ => hidle ?_ pid, fun pid _ => hidle ?_ pid, .of_unnamed ?_⟩
    · cases hs
      rfl
    · cases hs
      decide +kernel
    · decide
  have hall : (s.run replaced).updates.waiting.length = 0 ∧
      ((s.run replaced).cache.roster? "lamps").isSome = true ∧
      ((s.run replaced).storage.held "" (Roster.idOf "lamps")).isSome = true ∧
      (s.run replaced).cache.record? "lamp" = some 2 ∧
      ((s.run replaced).record 2).factoryPid = none ∧
      (s.run replaced).cache.record? "light" = some 1 ∧
      ((s.run replaced).record 1).deleted = false ∧
      ((s.run replaced).record 1).factoryPid = some "lamps" ∧
      ((s.run replaced).record 1).properties.isSome = true := by
    cases hs
    decide +kernel
  obtain ⟨hdone, hcached, hstored, hlamp, hsingle, hlight, hundeleted, hfactory, hprop⟩ := hall
  obtain ⟨r, hr⟩ := Option.isSome_iff_exists.mp hcached
  obtain ⟨d, hd⟩ := Option.isSome_iff_exists.mp hstored
  have haccounts := (rosters_list_members (l := ⟨0, ""⟩) rfl rfl Settings.idOf_ne_bindingsId hs
    hplain hdraws (List.eq_nil_of_length_eq_zero hdone) "lamps").1 r hr
  refine ⟨s, r, hs, hr, by rw [hlamp]; exact Option.some_ne_none _, fun hm => ?_,
    (haccounts.members "light").mpr
      ⟨1, hlight, hundeleted, hfactory, Option.isSome_iff_ne_none.mp hprop⟩,
    haccounts.stored d hd⟩
  obtain ⟨i, hc, -, hf, -⟩ := (haccounts.members "lamp").mp hm
  rw [hlamp] at hc
  cases hc
  rw [hsingle] at hf
  cases hf

/-- A member is updated, and after it a configuration that a consumer is bound to. -/
def overwritten : List Action :=
  [.createMember "lamps" none ["lamp"], .update "lamp" .empty,
    .around (.addConsumer .single "here" ["pid"] 0), .getOrCreate "pid" none,
    .update "pid" .empty, .runUpdate, .runUpdate]

/-- Where the bindings are stored under the id of a roster, they take its place: the roster lists a
member, and loading what is stored of it gives none. -/
theorem roster_overwritten_by_bindings :
    ∃ s r r', start { storage := ownStorage } { bindingsId := "lamps.factory" } = .ok s ∧
      (∀ a ∈ overwritten, Within (.plain "lamps.factory") a) ∧ s.DrawsAnew overwritten ∧
      (s.run overwritten).updates.waiting = [] ∧
      (s.run overwritten).cache.roster? "lamps" = some r ∧ r.members = ["lamp"] ∧
      (s.run overwritten).storage.held "" (Roster.idOf "lamps") ≠ none ∧
      Roster.load "lamps" "" (s.run overwritten).storage = .ok r' ∧ r'.members = [] := by
  obtain ⟨s, hs⟩ : ∃ s, start { storage := ownStorage } { bindingsId := "lamps.factory" } =
    .ok s := ⟨_, rfl⟩
  have hplain : ∀ a ∈ overwritten, Within (.plain "lamps.factory") a :=
    within_plain (by simp [overwritten]) (by simp [overwritten]) (by simp [overwritten])
      (by decide)
  have hdraws : s.DrawsAnew overwritten := by
    refine ⟨?_, .of_unnamed (by decide)⟩
    rintro pid - f ⟨i, owner, hw, -⟩
    rw [start_view hs] at hw
    exact absurd hw List.not_mem_nil
  have hall : (s.run overwritten).updates.waiting.length = 0 ∧
      ((s.run overwritten).cache.roster? "lamps").map Roster.members = some ["lamp"] ∧
      ((s.run overwritten).storage.held "" (Roster.idOf "lamps")).isSome = true ∧
      (Roster.load "lamps" "" (s.run overwritten).storage).toOption.map Roster.members =
        some [] := by
    cases hs
    decide +kernel
  obtain ⟨hdone, hcached, hstored, hloaded⟩ := hall
  obtain ⟨r, hr, hmembers⟩ := Option.map_eq_some_iff.mp hcached
  obtain ⟨r', hr', hnone⟩ := Option.map_eq_some_iff.mp hloaded
  refine ⟨s, r, r', hs, hplain, hdraws, List.eq_nil_of_length_eq_zero hdone, hr, hmembers,
    Option.isSome_iff_ne_none.mp hstored, ?_, hnone⟩
  cases hload : Roster.load "lamps" "" (s.run overwritten).storage with
  | error e =>
    rw [hload] at hr'
    cases hr'
  | ok r'' =>
    rw [hload] at hr'
    cases hr'
    rfl

end Session
end Provisioning
