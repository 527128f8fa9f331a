import Provisioning.Proofs.Agreement
import Provisioning.Proofs.Holders
import Provisioning.Proofs.Isolation
import Provisioning.Proofs.Mirror
import Provisioning.Proofs.Rebuilding
import Provisioning.Proofs.SoundStorage

/-! # Restarts

A manager that is shut down and started anew over the same backend knows what the former one knew.
Over one backend that fails at nothing three things are stored at any time: the dictionaries of
records, which mirror the cache; the rosters; and the table of bindings, with which the records
agree.  Whoever starts finds them there and rebuilds them.

Two things get lost, and are meant to.  A record whose properties hold nothing but automatic pids
comes back as one that was never updated, and a record that was bound to a location which is not
installed when the new manager starts comes back without an owner.
-/
namespace Provisioning

/-- The scope of a session without failures in which ids do not collide: anything may happen, but
that no configuration is created under the id of a roster or of the bindings, and nobody else writes
to the backend. -/
def Scope.plain (bindingsId : String) : Scope :=
  ⟨fun pid => ¬Storage.Reserved bindingsId pid, fun _ => True, fun _ => True, False⟩

theorem Scope.plain_wide (bindingsId : String) : (Scope.plain bindingsId).Wide :=
  ⟨fun _ => trivial, fun _ => trivial⟩

theorem Scope.plain_apart {bindingsId : String} (hid : ∀ f, Roster.idOf f ≠ bindingsId) :
    (Scope.plain bindingsId).Apart bindingsId :=
  ⟨fun _ h => h, hid, id⟩

/-! ### The table of bindings is stored -/

namespace Bindings

variable {name : String} {t : Bindings} {st st' : Storage}

/-- A table that is stored in the one backend. -/
structure Shelved (name : String) (t : Bindings) (st : Storage) : Prop where
  home : t.home = name
  sound : st.Sound name
  posted : t.Posted st

theorem shelved_persist (hn : t.home = name) (hs : st.Sound name) :
    t.Shelved name (t.persist st) :=
  ⟨hn, hs.persist t, posted_persist (hn ▸ hs.writable t.id)⟩

namespace Shelved

/-- Something else is stored. -/
theorem of_held (h : t.Shelved name st) (hs : st'.Sound name)
    (hheld : st'.held t.home t.id = st.held t.home t.id) : t.Shelved name st' := by
  refine ⟨h.home, hs, ?_⟩
  rw [Posted, hheld]
  exact h.posted

theorem put (h : t.Shelved name st) (pid : String) (location : Option String) :
    (t.put pid location st).1.Shelved name (t.put pid location st).2 := by
  have hhome := (t.assign_identity pid location).2.trans h.home
  unfold Bindings.put
  dsimp only
  split
  · next he =>
    rw [t.assign_get? (beq_iff_eq.mp he)]
    exact h
  · exact shelved_persist hhome h.sound

theorem withdrawAll (h : t.Shelved name st) (pids : List String) :
    (Bindings.withdrawAll pids (t, st)).1.Shelved name (Bindings.withdrawAll pids (t, st)).2 := by
  induction pids generalizing t st with
  | nil => exact h
  | cons pid rest ih => exact ih (h.put pid none)

/-- What is loaded of a stored table is stored again. -/
theorem load (h : t.Shelved name st) (installed : List String) :
    (Bindings.load t.id name installed st).1.Shelved name
      (Bindings.load t.id name installed st).2 := by
  obtain ⟨rfl, hsound, hposted⟩ := h
  have hread := hsound.not_mem_unreadable t.id
  refine ⟨rfl, ?_, posted_load hread (hsound.writable t.id) installed⟩
  rw [storage_load hposted hread]
  split
  · exact hsound.persist _
  · exact hsound

theorem held_load (h : t.Shelved name st) (installed : List String) {id : String}
    (hne : id ≠ t.id) :
    (Bindings.load t.id name installed st).2.held name id = st.held name id := by
  obtain ⟨rfl, hsound, hposted⟩ := h
  have hread := hsound.not_mem_unreadable t.id
  rw [storage_load hposted hread, table_load hposted hread]
  split
  · rcases persist_cases { t with table := t.table.keep fun _ l => installed.contains l } st with
      he | hst
    · rw [he]
    · rw [Storage.held_store hst, if_neg]
      exact fun he => hne he.2
  · rfl

end Shelved
end Bindings

namespace Session

variable {scope : Scope} {name : String} {s s' : Session}

/-! ### What a stroke keeps -/

theorem Stroke.shelved (hs : Stroke scope s s') (hap : scope.Apart s.bindings.id)
    (h : s.bindings.Shelved name s.storage) : s'.bindings.Shelved name s'.storage := by
  have hput : ∀ {pid location}, (s'.bindings, s'.storage) =
      s.bindings.put pid location s.storage → s'.bindings.Shelved name s'.storage := by
    intro pid location written
    have hb : s'.bindings = _ := congrArg Prod.fst written
    have hst : s'.storage = _ := congrArg Prod.snd written
    rw [hb, hst]
    exact h.put pid location
  cases hs with
  | sameButMarks hsame =>
    rw [hsame.bindings, hsame.storage]
    exact h
  | adopt _ _ _ _ _ same | commit _ same | found _ _ _ _ same | lag _ _ _ _ same
  | queue _ _ same =>
    rw [same.bindings, same.storage]
    exact h
  | @store home pid d within stored _ bindings =>
    rw [bindings]
    refine h.of_held (h.sound.store stored) ?_
    rw [Storage.held_store stored, if_neg]
    rintro ⟨-, he⟩
    exact hap.stored pid within (Or.inl he.symm)
  | @remove home pid within stored _ bindings =>
    rw [bindings]
    refine h.of_held (h.sound.delete stored) ?_
    rw [Storage.held_delete stored, if_neg]
    rintro ⟨-, he⟩
    exact hap.stored pid within (Or.inl he.symm)
  | enlist _ _ _ stored _ bindings =>
    rw [bindings]
    refine h.of_held (h.sound.store stored) ?_
    rw [Storage.held_store stored, if_neg]
    rintro ⟨-, he⟩
    exact hap.rosters _ he.symm
  | bind _ _ _ _ _ written => exact hput written
  | settle _ _ _ written => exact hput written
  | drop _ _ _ written => exact hput written
  | @vacate location _ _ _ _ _ _ _ written =>
    have hb : s'.bindings = _ := congrArg Prod.fst written
    have hst : s'.storage = _ := congrArg Prod.snd written
    rw [hb, hst]
    exact h.withdrawAll _
  | tamper within => exact absurd within hap.untampered

/-- A session whose rosters are what the storage has. -/
structure Rostered (name : String) (s : Session) : Prop where
  sorted : ∀ f, (s.storage.enlisted name f).Pairwise (· < ·)
  known : ∀ f r, s.view.rosters.get? f = some r →
    r.home = name ∧ r.members = s.storage.enlisted name f

namespace Rostered

/-- Rosters are neither filed nor stored. -/
theorem of_held (h : s.Rostered name) (hr : s'.view.rosters = s.view.rosters)
    (hheld : ∀ f, s'.storage.held name (Roster.idOf f) = s.storage.held name (Roster.idOf f)) :
    s'.Rostered name := by
  have hsame : ∀ f, s'.storage.enlisted name f = s.storage.enlisted name f := by
    intro f
    rw [Storage.enlisted, hheld, Storage.enlisted]
  refine ⟨fun f => ?_, fun f r hf => ?_⟩
  · rw [hsame]
    exact h.sorted f
  · rw [hr] at hf
    rw [hsame]
    exact h.known f r hf

/-- A roster is filed that is what the storage has then. -/
theorem file (h : s.Rostered name) {r : Roster} (hv : s'.view = s.view.file r)
    (hhome : r.home = name) (hmembers : r.members = s'.storage.enlisted name r.factoryPid)
    (hsorted : r.Sorted)
    (hothers : ∀ f, f ≠ r.factoryPid → s'.storage.enlisted name f = s.storage.enlisted name f) :
    s'.Rostered name := by
  refine ⟨fun f => ?_, fun f r' hf => ?_⟩
  · by_cases he : f = r.factoryPid
    · rw [he, ← hmembers]
      exact hsorted
    · rw [hothers f he]
      exact h.sorted f
  · have hget : s'.view.rosters.get? f =
        if f = r.factoryPid then some r else s.view.rosters.get? f := by
      rw [hv]
      exact Table.get?_put s.view.rosters r.factoryPid f r
    rw [hget] at hf
    split at hf
    · next he =>
      cases hf
      exact ⟨hhome, he ▸ hmembers⟩
    · next he =>
      rw [hothers f he]
      exact h.known f r' hf

/-- The roster that the storage has for a factory. -/
theorem found (h : s.Rostered name) (hs : s.storage.Sound name) {r : Roster}
    (source : (∃ home, s.storage.firstHaving (Roster.idOf r.factoryPid) = some home ∧
        Roster.load r.factoryPid home s.storage = .ok r) ∨
      s.storage.firstHaving (Roster.idOf r.factoryPid) = none ∧
        s.storage.primary = .ok r.home ∧ r.members = []) :
    r.home = name ∧ r.members = s.storage.enlisted name r.factoryPid := by
  have hsorted := h.sorted r.factoryPid
  simp only [hs.firstHaving] at source
  unfold Storage.enlisted at hsorted ⊢
  cases hd : s.storage.held name (Roster.idOf r.factoryPid) with
  | none =>
    rw [hd] at source
    rcases source with ⟨home, hf, -⟩ | ⟨-, hp, hm⟩
    · cases hf
    · rw [hs.primary] at hp
      cases hp
      exact ⟨rfl, hm⟩
  | some d =>
    rw [hd] at source hsorted
    rcases source with ⟨home, hf, hl⟩ | ⟨hf, -⟩
    · cases hf
      rw [Option.map_some, Option.getD_some] at hsorted
      rw [hs.roster hd, Roster.ofList_sorted hsorted] at hl
      rw [← Except.ok.inj hl]
      exact ⟨rfl, rfl⟩
    · cases hf

end Rostered

/-- What a stroke does to rosters, where ids do not collide: none is filed or stored, or one is. -/
inductive Posts (s s' : Session) : Prop
  | rest (rosters : s'.view.rosters = s.view.rosters)
    (held : ∀ name f,
      s'.storage.held name (Roster.idOf f) = s.storage.held name (Roster.idOf f)) : Posts s s'
  | found {r : Roster}
    (source : (∃ home, s.storage.firstHaving (Roster.idOf r.factoryPid) = some home ∧
        Roster.load r.factoryPid home s.storage = .ok r) ∨
      s.storage.firstHaving (Roster.idOf r.factoryPid) = none ∧
        s.storage.primary = .ok r.home ∧ r.members = [])
    (view : s'.view = s.view.file r) (storage : s'.storage = s.storage) : Posts s s'
  | enlist {f : String} {r r' : Roster} (known : s.view.rosters.get? f = some r)
    (revises : r'.Revises r) (stored : r'.store s.storage = .ok s'.storage)
    (view : s'.view = s.view.file r') : Posts s s'
  | lag {f : String} {r r' : Roster} {e : StorageError} (known : s.view.rosters.get? f = some r)
    (revises : r'.Revises r) (failed : r'.store s.storage = .error e)
    (view : s'.view = s.view.file r') (storage : s'.storage = s.storage) : Posts s s'

theorem Stroke.posts (hs : Stroke scope s s') (hap : scope.Apart s.bindings.id) :
    s.Posts s' := by
  -- the bindings are not stored under the id of a roster
  have hspared : s'.view.rosters = s.view.rosters →
      Spared ⟨fun _ => False, fun _ => True, fun _ => False, False⟩ s s' → s.Posts s' :=
    fun hr hsp => .rest hr fun name f =>
      hsp.dictionaries name _ (fun hx => hx) (fun _ hf => hf.elim) fun _ => hap.rosters f
  have hput : ∀ {pid location}, s'.view.rosters = s.view.rosters →
      (s'.bindings, s'.storage) = s.bindings.put pid location s.storage → s.Posts s' :=
    fun hr written => hspared hr (.of_put trivial written)
  cases hs with
  | sameButMarks hsame => exact .rest hsame.rosters fun _ _ => by rw [hsame.storage]
  | adopt _ _ _ _ view same | commit view same =>
    exact .rest (by rw [view]; rfl) fun _ _ => by rw [same.storage]
  | queue _ view same =>
    exact .rest (by rw [view, View.enqueue_eq]) fun _ _ => by rw [same.storage]
  | @store home pid d within stored view =>
    refine .rest (by rw [view]) fun name f => ?_
    rw [Storage.held_store stored, if_neg]
    rintro ⟨-, he⟩
    exact hap.stored pid within (Or.inr ⟨f, he.symm⟩)
  | @remove home pid within stored view =>
    refine .rest (by rw [view]) fun name f => ?_
    rw [Storage.held_delete stored, if_neg]
    rintro ⟨-, he⟩
    exact hap.stored pid within (Or.inr ⟨f, he.symm⟩)
  | found _ _ source view same => exact .found source view same.storage
  | enlist _ known revises stored view => exact .enlist known revises stored view
  | lag known revises failed view same => exact .lag known revises failed view same.storage
  | bind _ _ _ _ view written => exact hput (by rw [view]; rfl) written
  | settle _ _ view written => exact hput (by rw [view]; rfl) written
  | drop _ _ view written => exact hput (by rw [view]; rfl) written
  | vacate _ _ rosters _ _ _ _ written =>
    exact hspared rosters (.of_withdrawAll (fun _ _ => trivial) written)
  | tamper within => exact absurd within hap.untampered

/-- A roster is stored under the id of its own factory. -/
theorem held_storeRoster {r : Roster} {st st' : Storage} (stored : r.store st = .ok st')
    {f : String} (hne : f ≠ r.factoryPid) (name : String) :
    st'.held name (Roster.idOf f) = st.held name (Roster.idOf f) := by
  rw [Storage.held_store stored, if_neg]
  rintro ⟨-, he⟩
  exact hne (Roster.idOf_injective he)

theorem Posts.rostered (hp : s.Posts s') (hsound : s.storage.Sound name) (h : s.Rostered name) :
    s'.Rostered name := by
  cases hp with
  | rest rosters held => exact h.of_held rosters (held name)
  | @found r source view storage =>
    obtain ⟨hhome, hmembers⟩ := h.found hsound source
    rw [← storage] at hmembers
    refine h.file view hhome hmembers ?_ fun f _ => by rw [storage]
    rw [Roster.Sorted, hmembers, storage]
    exact h.sorted r.factoryPid
  | @enlist f r r' known revises stored view =>
    obtain ⟨hhome, hmembers⟩ := h.known f r known
    have hhome' := revises.home.trans hhome
    refine h.file view hhome' ?_ (revises.sorted ?_) fun f' hne => ?_
    · rw [Storage.enlisted, Storage.held_store stored, if_pos ⟨hhome'.symm, rfl⟩]
      exact r'.listed_dictionary.symm
    · rw [Roster.Sorted, hmembers]
      exact h.sorted f
    · rw [Storage.enlisted, held_storeRoster stored hne, Storage.enlisted]
  | @lag f r r' e known revises failed =>
    -- nothing fails to be stored
    obtain ⟨st', hst⟩ := hsound.exists_store (Roster.idOf r'.factoryPid) r'.dictionary
    rw [Roster.store, revises.home, (h.known f r known).1, hst] at failed
    cases failed

/-- The cached records carry their pids. -/
def Labelled (s : Session) : Prop :=
  ∀ pid h, s.view.cached.get? pid = some h → (s.record h).Stamped

theorem Stroke.labelled (hs : Stroke scope s s') (h : s.Labelled) :
    s'.Labelled := by
  intro pid i hi
  rcases hs.kinds with hl | ⟨r, -, -, view⟩ | ⟨j, -, view⟩
  · rw [hl.cached] at hi
    exact hs.stamped (h pid i hi)
  · rw [view, View.cached_adopt] at hi
    split at hi
    · -- a record that is not there has no properties to carry pids
      cases hi
      refine hs.stamped ?_
      rw [← record_view, View.record_of_length_le (Nat.le_refl _)]
      exact fun _ hp => by cases hp
    · exact hs.stamped (h pid i hi)
  · rw [view, View.cached_expunge] at hi
    split at hi
    · cases hi
    · exact hs.stamped (h pid i hi)

/-- A session without failures, of which everything is stored that a later one has to know. -/
structure Saved (bindingsId name : String) (s : Session) : Prop where
  id : s.bindings.id = bindingsId
  filed : s.view.Filed
  bindings : s.bindings.Shelved name s.storage
  rosters : s.Rostered name
  labelled : s.Labelled

/-- **Strokes** keep everything stored, where ids do not collide. -/
theorem Strokes.saved {bindingsId : String} (hs : Strokes scope s s')
    (hap : scope.Apart bindingsId) (h : s.Saved bindingsId name) : s'.Saved bindingsId name := by
  induction hs with
  | refl => exact h
  | tail _ hlast ih =>
    have hap' := ih.id.symm ▸ hap
    exact ⟨hlast.id.trans ih.id, hlast.filed ih.filed, hlast.shelved hap' ih.bindings,
      (hlast.posts hap').rostered ih.bindings.sound ih.rosters, hlast.labelled ih.labelled⟩

/-! ### The beginning and the end -/

/-- The settings of a manager that started are valid for another one. -/
theorem exists_start {w w' : World} {settings : Settings} (hs : start w settings = .ok s)
    (hw : w'.storage.Sound name) : ∃ s', start w' settings = .ok s' := by
  obtain ⟨rank, hc⟩ := hw.chain
  unfold start at hs ⊢
  cases hv : settings.validate with
  | error e =>
    rw [hv] at hs
    cases hs
  | ok u =>
    simp only [hc, List.isEmpty_cons, Bool.false_eq_true, if_false, hw.primary]
    exact ⟨_, rfl⟩

/-- A manager that starts takes up what is stored, but for bindings to locations that are not
installed. -/
theorem start_saved {w : World} {settings : Settings} {t : Bindings}
    (ht : t.Shelved name w.storage) (hid : t.id = settings.bindingsId)
    (hr : ∀ f, (w.storage.enlisted name f).Pairwise (· < ·))
    (hap : ∀ f, Roster.idOf f ≠ settings.bindingsId) (hs : start w settings = .ok s) :
    s.Saved settings.bindingsId name ∧
      (∀ pid, s.bindings.get? pid =
        (t.get? pid).filter w.directory.installedLocations.contains) ∧
      ∀ id, id ≠ settings.bindingsId → s.storage.held name id = w.storage.held name id := by
  have hfiled := start_filed hs
  have hview := start_view hs
  obtain ⟨home, bindings, storage, hhome, hload, rfl⟩ := start_eq hs
  obtain ⟨rank, hc⟩ := ht.sound.chain
  have hstorage : (if w.storage.chain.isEmpty then ownStorage else w.storage) = w.storage := by
    rw [hc, List.isEmpty_cons, if_neg Bool.false_ne_true]
  rw [hstorage] at hhome hload
  rw [ht.sound.primary] at hhome
  cases hhome
  rw [← hid] at hap hload ⊢
  obtain rfl : _ = bindings := congrArg Prod.fst hload
  obtain rfl : _ = storage := congrArg Prod.snd hload
  have hothers : ∀ id, id ≠ t.id → _ := fun id hne =>
    ht.held_load w.directory.installedLocations hne
  have hlisted : ∀ f, ((Bindings.load t.id name w.directory.installedLocations w.storage).2.enlisted
      name f) = w.storage.enlisted name f := by
    intro f
    rw [Storage.enlisted, hothers _ (hap f), Storage.enlisted]
  refine ⟨⟨rfl, hfiled, ht.load _, ⟨fun f => ?_, fun f r hf => ?_⟩, fun pid h hh => ?_⟩,
    fun pid => ?_, hothers⟩
  · rw [hlisted]
    exact hr f
  · rw [hview] at hf
    cases hf
  · rw [hview] at hh
    cases hh
  · show (Bindings.load t.id name _ w.storage).1.get? pid = _
    obtain ⟨rfl, hsound, hposted⟩ := ht
    rw [Bindings.table_load hposted (hsound.not_mem_unreadable _)]
    exact t.table.get?_keep _ pid

/-- A session that has nothing to do writes nothing when it is shut down. -/
theorem shutdown_storage (h : s.updates.waiting = []) : s.shutdown.storage = s.storage := by
  have hnotices : ∀ n (s : Session), (runNotices n s).storage = s.storage := by
    intro n
    induction n with
    | zero => exact fun _ => rfl
    | succ n ih => exact fun s => (ih s.runNotice).trans s.runNotice_sameButMarks.storage
  unfold shutdown drainUpdates drainNotices WorkLine.close
  split
  · rfl
  · rw [h]
    exact hnotices _ _

/-! ### What a session answers -/

/-- The record that is found under a pid. -/
def existing? (s : Session) (pid : String) : Option Record :=
  match s.getExisting pid with
  | (.ok (some h), s') => some (s'.record h)
  | _ => none

theorem existing?_of_cached (hrun : s.view.accepting = true) {pid : String} {h : Handle}
    (hc : s.view.cached.get? pid = some h) : s.existing? pid = some (s.record h) := by
  have hrunning : s.isRunning = true := hrun
  have hrec : s.cache.record? pid = some h := hc
  simp [existing?, getExisting, configuration, hrunning, hrec]

/-- A record that is stored and not cached is rebuilt, with the binding that is remembered. -/
theorem existing?_of_stored (hrun : s.view.accepting = true) (hs : s.storage.Sound name)
    {pid : String} (hc : s.view.cached.get? pid = none) {d : Properties}
    (hd : s.storage.held name pid = some d) (hk : d.contains Properties.pidKey = true)
    {r : Record} (hr : Record.ofDictionary pid name d = .ok r) :
    s.existing? pid = some (r.restore (s.bindings.get? pid)) := by
  have hrunning : s.isRunning = true := hrun
  have hrec : s.cache.record? pid = none := hc
  obtain ⟨r', hr'⟩ : ∃ r', r.restore (s.bindings.get? pid) = r' := ⟨_, rfl⟩
  have hrevive : s.revive pid name d = .ok r' := by
    rw [revive, hr]
    exact congrArg Except.ok hr'
  rw [hr']
  have habsent : s.view.cached.get? r'.pid = none := (revive_spec hrevive).1.symm ▸ hc
  have hget : s.getExisting pid = (.ok (some (s.keepRecord r').1), (s.keepRecord r').2) := by
    unfold getExisting configuration
    simp only [hrunning, hrec, hs.firstHaving, hd, Option.map_some, hs.load hd, hk, hrevive]
    rfl
  have hrecord : (s.keepRecord r').2.record (s.keepRecord r').1 = r' := by
    rw [← record_view, view_keepRecord habsent]
    exact s.view.record_enroll_new r'
  rw [existing?, hget]
  exact congrArg some hrecord

/-- The members of a factory are those that are stored. -/
theorem members_eq (hrun : s.view.accepting = true) (hs : s.storage.Sound name)
    (h : s.Rostered name) (f : String) :
    (s.members f).1 = .ok (s.storage.enlisted name f) := by
  have hrunning : s.isRunning = true := hrun
  obtain ⟨r, hr, hmembers⟩ : ∃ r, (s.factory f).1 = .ok r ∧
      r.members = s.storage.enlisted name f := by
    unfold factory
    split
    · next r hc => exact ⟨r, rfl, (h.known f r hc).2⟩
    · next hc =>
      cases hd : s.storage.held name (Roster.idOf f) with
      | none =>
        simp only [hs.firstHaving, hd, Option.map_none, hs.primary]
        refine ⟨_, rfl, ?_⟩
        rw [Storage.enlisted, hd]
        rfl
      | some d =>
        simp only [hs.firstHaving, hd, Option.map_some, hs.roster hd]
        have hsorted := h.sorted f
        rw [Storage.enlisted, hd] at hsorted ⊢
        exact ⟨_, rfl, congrArg Roster.members (Roster.ofList_sorted hsorted)⟩
  rw [← hmembers]
  unfold members
  have hfactory : s.factory f = (.ok r, (s.factory f).2) := Prod.ext hr rfl
  rw [hrunning, hfactory]
  rfl

/-! ### Restarts -/

end Session

/-- A record that a later manager has for one of a former manager. -/
structure Record.Restored (installed : List String) (r r' : Record) : Prop where
  pid : r'.pid = r.pid
  factoryPid : r'.factoryPid = r.factoryPid
  properties : r.Plain → r'.properties = r.properties.filter Properties.substantial
  staticLocation : r.Plain → r'.staticLocation = r.staticLocation
  dynamicLocation : r.Plain → r'.dynamicLocation = r.dynamicLocation.filter installed.contains

/-- A rebuilt record takes up its binding, unless it has a static location. -/
theorem Record.Rebuilt.restore {r r' : Record} (h : r.Rebuilt r') (installed : List String)
    (hx : r.staticLocation ≠ none → r.dynamicLocation = none) :
    r.Restored installed (r'.restore (r.dynamicLocation.filter installed.contains)) := by
  obtain ⟨hpid, hfactory, -⟩ := r'.restore_identity (r.dynamicLocation.filter installed.contains)
  refine ⟨hpid.trans h.pid, hfactory.trans h.factoryPid, fun hp => ?_, fun hp => ?_, fun hp => ?_⟩
  · rw [← h.properties hp]
    unfold Record.restore
    split <;> rfl
  · rw [← h.staticLocation hp]
    unfold Record.restore
    split <;> rfl
  · unfold Record.restore
    split
    · rfl
    · next hs =>
      have hstatic : r.staticLocation ≠ none := by
        rw [← h.staticLocation hp]
        simpa using hs
      rw [h.unbound, hx hstatic]
      rfl

namespace Session

variable {name : String} {s s' : Session}

/-- An action of a session in which ids do not collide and nobody else writes to the backend leaves
what a backend holds alone. -/
theorem Within.spares {bindingsId : String} {a : Action} (ha : Within (.plain bindingsId) a) :
    a.SparesStorage := by
  cases a with
  | around action =>
    cases action with
    | backend name change => exact (ha.tampering name change rfl).elim
    | _ => trivial
  | _ => trivial

/-- A record that is stored and the one that a later manager has for it. -/
theorem Saved.restored {bindingsId : String} (hsaved : s.Saved bindingsId name)
    (hm : s.Mirrored bindingsId name) (ha : s.Agreed) (hrun : s.view.accepting = true)
    {installed : List String} (hsaved' : s'.Saved bindingsId name)
    (hrun' : s'.view.accepting = true) (hnone : ∀ pid, s'.view.cached.get? pid = none)
    (hbindings : ∀ pid, s'.bindings.get? pid =
      (s.bindings.get? pid).filter installed.contains)
    (hheld : ∀ id, id ≠ bindingsId → s'.storage.held name id = s.storage.held name id)
    {pid : String} (hfree : ¬Storage.Reserved bindingsId pid) {d : Properties}
    (hd : s.storage.held name pid = some d) :
    ∃ r r', s.existing? pid = some r ∧ s'.existing? pid = some r' ∧ r.Restored installed r' := by
  -- what is stored is what the cached record comes to
  obtain ⟨h, hc, hdeposit⟩ : ∃ h, s.view.cached.get? pid = some h ∧
      (s.record h).deposit = some d := by
    rw [hm.mirrors pid hfree, View.deposit?, Option.bind_eq_some_iff] at hd
    exact hd
  have hpersisted : d = (s.record h).persisted := by
    unfold Record.deposit at hdeposit
    split at hdeposit
    · cases hdeposit
    · exact (Option.some.inj hdeposit).symm
  subst hpersisted
  have hpid : (s.record h).pid = pid := (hsaved.filed.held pid h hc).2.1
  have hnamed : (s.record h).persisted.contains Properties.pidKey = true := by
    have htext := (s.record h).pid_persisted
    rw [Properties.text?, Option.bind_eq_some_iff] at htext
    obtain ⟨v, hv, -⟩ := htext
    rw [Table.contains_eq_isSome, hv, Option.isSome_some]
  obtain ⟨r', hr', hrebuilt⟩ := Record.ofDictionary_persisted (hsaved.labelled pid h hc) name
  rw [hpid] at hr'
  have hd' := (hheld pid fun he => hfree (Or.inl he)).trans hd
  have hfound := existing?_of_stored hrun' hsaved'.bindings.sound (hnone pid) hd' hnamed hr'
  rw [hbindings, ha.table, bound?_of_cached hc] at hfound
  exact ⟨_, _, existing?_of_cached hrun hc, hfound,
    hrebuilt.restore installed (ha.exclusive pid h hc)⟩

/-- A manager that starts over one empty backend finds no roster there. -/
theorem start_saved_of_empty {w : World} {l : Link} (hchain : w.storage.chain = [l])
    (hempty : w.storage.backend l.backend = {}) {settings : Settings}
    (hid : ∀ f, Roster.idOf f ≠ settings.bindingsId) (hs : start w settings = .ok s) :
    s.Saved settings.bindingsId l.backend ∧
      ∀ f, s.storage.held l.backend (Roster.idOf f) = none := by
  have hheld : ∀ id, w.storage.held l.backend id = none := by
    intro id
    rw [Storage.held, hempty]
    rfl
  have hsound : w.storage.Sound l.backend :=
    ⟨⟨l.rank, hchain⟩, fun id => by rw [hempty]; rfl, by rw [hempty]⟩
  have hshelved : ({ id := settings.bindingsId, home := l.backend } : Bindings).Shelved l.backend
      w.storage := by
    refine ⟨rfl, hsound, ?_⟩
    rw [Bindings.Posted, hheld]
    rfl
  have hlisted : ∀ f, (w.storage.enlisted l.backend f).Pairwise (· < ·) := by
    intro f
    rw [Storage.enlisted, hheld]
    exact List.Pairwise.nil
  obtain ⟨hsaved, -, hothers⟩ := start_saved hshelved rfl hlisted hid hs
  exact ⟨hsaved, fun f => (hothers _ (hid f)).trans (hheld _)⟩

/-- What a run comes to in which nothing fails. -/
theorem run_saved {w : World} {l : Link} (hchain : w.storage.chain = [l])
    (hempty : w.storage.backend l.backend = {}) {settings : Settings}
    (hid : ∀ f, Roster.idOf f ≠ settings.bindingsId) (hs : start w settings = .ok s)
    {actions : List Action} (hplain : ∀ a ∈ actions, Within (.plain settings.bindingsId) a) :
    (s.run actions).Saved settings.bindingsId l.backend :=
  (run_strokes (start_tidy hs) (Scope.plain_wide _) hplain).saved (Scope.plain_apart hid)
    (start_saved_of_empty hchain hempty hid hs).1

/-- **Restarts.**  Over one backend that is empty at first and fails at nothing, and under ids that
do not collide: when a manager is shut down with all its work done and another one is started over
the same backend, then the new one finds a record for every configuration that is stored, of the
same pid and factory; with the same properties, unless there was nothing in them but automatic pids;
with the same static location, and with the same dynamic one, if it is installed.  Of records whose
properties have the key of the static location, only pid and factory are told.  Every factory has
the members that it had. -/
theorem restart_restores {w : World} {l : Link} (hchain : w.storage.chain = [l])
    (hempty : w.storage.backend l.backend = {}) {settings : Settings}
    (hid : ∀ f, Roster.idOf f ≠ settings.bindingsId) (hs : start w settings = .ok s)
    {actions : List Action} (hplain : ∀ a ∈ actions, Within (.plain settings.bindingsId) a)
    (hdone : (s.run actions).updates.waiting = []) {w' : World}
    (hw : w'.storage = (s.run actions).shutdown.storage) :
    ∃ s', start w' settings = .ok s' ∧
      (∀ pid d, ¬Storage.Reserved settings.bindingsId pid →
        (s.run actions).storage.held l.backend pid = some d →
          ∃ r r', (s.run actions).existing? pid = some r ∧ s'.existing? pid = some r' ∧
            r.Restored w'.directory.installedLocations r') ∧
      ∀ f, (s'.members f).1 = ((s.run actions).members f).1 := by
  have hbare : w.Bare := Or.inr ⟨l, hchain, congrArg Backend.dictionaries hempty⟩
  have hend : .shutdown ∉ actions := fun hm => (hplain _ hm).unfinished rfl
  have htidy := start_tidy hs
  have hsaved := run_saved hchain hempty hid hs hplain
  have hagreed := (run_strokes htidy (Scope.plain_wide _) hplain).agreed htidy
    (start_agreed hbare hs)
  obtain ⟨name, hstart⟩ := start_mirrored hbare hs
  have hmirrored := hstart.run_unfinished htidy.filed hend fun a ha => (hplain a ha).spares
  have hrun : (s.run actions).view.accepting = true := by
    rw [run_accepting htidy.filed hend, start_view hs]
  rw [shutdown_storage hdone] at hw
  generalize s.run actions = s₁ at *
  obtain rfl : name = l.backend := hmirrored.home_eq hsaved.bindings.sound.primary |>.symm
  have hshelved := hsaved.bindings
  have hsorted := hsaved.rosters.sorted
  rw [← hw] at hshelved hsorted
  obtain ⟨s', hs'⟩ := exists_start hs hshelved.sound
  obtain ⟨hsaved', hbindings, hheld⟩ := start_saved hshelved hsaved.id hsorted hid hs'
  have hrun' : s'.view.accepting = true := by rw [start_view hs']
  refine ⟨s', hs', fun pid d hfree hd => ?_, fun f => ?_⟩
  · have hnone : ∀ pid, s'.view.cached.get? pid = none := by
      intro pid
      rw [start_view hs']
      rfl
    rw [hw] at hheld
    exact hsaved.restored hmirrored hagreed hrun hsaved' hrun' hnone hbindings hheld hfree hd
  · rw [members_eq hrun hsaved.bindings.sound hsaved.rosters,
      members_eq hrun' hsaved'.bindings.sound hsaved'.rosters]
    rw [Storage.enlisted, hheld _ (hid f), hw, Storage.enlisted]

/-- Actions on records whose ids do not end like those of rosters. -/
theorem within_plain {bindingsId : String} {actions : List Action}
    (hsub : ∀ t, .submit t ∉ actions) (hend : .shutdown ∉ actions)
    (hbackend : ∀ name change, .around (.backend name change) ∉ actions)
    (hfree : ∀ a ∈ actions, ∀ pid ∈ a.stores,
      pid ≠ bindingsId ∧ pid.toList.getLast? ≠ some 'y') :
    ∀ a ∈ actions, Within (.plain bindingsId) a := by
  refine fun a ha => ⟨?_, ?_, fun pid hp => ?_, ?_⟩
  · rintro t rfl
    exact hsub t ha
  · rintro rfl
    exact hend ha
  · obtain ⟨hne, hlast⟩ := hfree a ha pid hp
    exact Storage.not_reserved hne hlast
  · rintro name change rfl
    exact hbackend name change ha

/-- A record is served where a provider is installed, and a factory gets a member. -/
def servedHere : List Action :=
  [.around (.install "here"), .around (.addConsumer .single "here" ["pid"] 0),
    .getOrCreate "pid" none, .update "pid" (Table.empty.put "level" (.text "high")),
    .createMember "lamps" (some "there") ["lamp"], .update "lamp" .empty, .runUpdate, .runUpdate]

/-- The record comes back with its properties and its owner, and the factory with its member. -/
theorem restart_restores_served :
    ∃ s s' r', start { storage := ownStorage } {} = .ok s ∧
      start (s.run servedHere).shutdown.toWorld {} = .ok s' ∧
      s'.existing? "pid" = some r' ∧ r'.properties.isSome = true ∧
      r'.dynamicLocation = some "here" ∧
      (s'.members "lamps").1.toOption = some ["lamp"] := by
  obtain ⟨s, hs⟩ : ∃ s, start { storage := ownStorage } {} = .ok s := ⟨_, rfl⟩
  have hplain : ∀ a ∈ servedHere, Within (.plain ({} : Settings).bindingsId) a :=
    within_plain (by simp [servedHere]) (by simp [servedHere]) (by simp [servedHere]) (by decide)
  have hall : (s.run servedHere).updates.waiting.length = 0 ∧
      ((s.run servedHere).storage.held "" "pid").isSome = true ∧
      ((s.run servedHere).existing? "pid").map (fun r =>
        (r.properties.bind fun p => p.get? Properties.locationKey).isNone) = some true ∧
      ((s.run servedHere).existing? "pid").map (fun r =>
        (r.properties.filter Properties.substantial).isSome) = some true ∧
      ((s.run servedHere).existing? "pid").map Record.dynamicLocation = some (some "here") ∧
      (s.run servedHere).shutdown.directory.installedLocations = ["here"] ∧
      ((s.run servedHere).members "lamps").1.toOption = some ["lamp"] := by
    cases hs
    decide
  obtain ⟨hdone, hstored, hkey, hproperties, hdynamic, hinstalled, hmembers⟩ := hall
  obtain ⟨d, hd⟩ := Option.isSome_iff_exists.mp hstored
  have hw : (s.run servedHere).shutdown.toWorld.storage = (s.run servedHere).shutdown.storage := rfl
  obtain ⟨s', hs', hrecords, hrosters⟩ := restart_restores (l := ⟨0, ""⟩) rfl rfl
    Settings.idOf_ne_bindingsId hs hplain (List.eq_nil_of_length_eq_zero hdone) hw
  obtain ⟨r, r', hr, hr', hrestored⟩ := hrecords "pid" d
    (Storage.not_reserved (by decide) (by decide)) hd
  rw [hr, Option.map_some, Option.some_inj] at hkey hproperties hdynamic
  have hfree : r.Plain := by
    intro p hp
    rw [hp, Option.bind_some] at hkey
    exact Option.isNone_iff_eq_none.mp hkey
  refine ⟨s, s', r', hs, hs', hr', ?_, ?_, ?_⟩
  · rw [hrestored.properties hfree]
    exact hproperties
  · rw [hrestored.dynamicLocation hfree, hdynamic, hinstalled]
    rfl
  · rw [hrosters]
    exact hmembers

/-- One record is updated with nothing, and another one stays bound where no provider is left. -/
def servedAway : List Action :=
  [.getOrCreate "pid" (some "here"), .update "pid" .empty, .runUpdate,
    .around (.addConsumer .single "away" ["other"] 0), .getOrCreate "other" none,
    .update "other" (Table.empty.put "level" (.text "high")), .runUpdate,
    .around (.uninstall "away")]

/-- After a restart in the same surroundings the one has lost its properties, and the other its
owner. -/
theorem restart_loses :
    ∃ s s', start { storage := ownStorage } {} = .ok s ∧
      (∀ a ∈ servedAway, Within (.plain ({} : Settings).bindingsId) a) ∧
      (s.run servedAway).updates.waiting = [] ∧
      (s.run servedAway).shutdown.directory.installedLocations =
        (s.run servedAway).directory.installedLocations ∧
      start (s.run servedAway).shutdown.toWorld {} = .ok s' ∧
      ((s.run servedAway).existing? "pid").map (fun r => r.properties.isSome) = some true ∧
      (s'.existing? "pid").map (fun r => r.properties.isSome) = some false ∧
      ((s.run servedAway).existing? "other").map Record.owner = some (some "away") ∧
      (s'.existing? "other").map Record.owner = some none := by
  obtain ⟨s, hs⟩ : ∃ s, start { storage := ownStorage } {} = .ok s := ⟨_, rfl⟩
  have hplain : ∀ a ∈ servedAway, Within (.plain ({} : Settings).bindingsId) a :=
    within_plain (by simp [servedAway]) (by simp [servedAway]) (by simp [servedAway]) (by decide)
  have hdone : (s.run servedAway).updates.waiting.length = 0 := by
    cases hs
    decide
  obtain ⟨s', hs'⟩ : ∃ s', start (s.run servedAway).shutdown.toWorld {} = .ok s' := by
    cases hs
    exact ⟨_, rfl⟩
  refine ⟨s, s', hs, hplain, List.eq_nil_of_length_eq_zero hdone, ?_, hs', ?_⟩
  · cases hs
    decide
  · cases hs
    cases hs'
    decide

end Session
end Provisioning
