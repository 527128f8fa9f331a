import Provisioning.Proofs.BindingFacts
import Provisioning.Proofs.Steps

/-! # The strokes of a session

What a session knows of a configuration stands in several places at once: in its record, in the
cache, in the table of bindings and in the storage.  Whatever happens to a session writes to them
by strokes of a few kinds, and a stroke leaves no place behind that it should have written to.
`Stroke` lists the kinds, each with what had been checked before it.  What places have to do with
each other is then a matter of one stroke, and followed along a sequence of them.

A scope says whose entries may be written.  What happens within the scope of one configuration
leaves all others as they are.
-/
namespace Provisioning

open Relation (ReflTransGen)

/-- Whose entries in the storage may be written. -/
structure Scope where
  /-- The configurations that may be stored. -/
  stored : String → Prop
  /-- The configurations whose bindings may be set and cleared. -/
  bound : String → Prop
  /-- The factories whose rosters may be stored. -/
  factories : String → Prop
  /-- Whether somebody else writes to the backends. -/
  tampering : Prop

/-- The scope of a session to which anything may happen. -/
def Scope.all : Scope := ⟨fun _ => True, fun _ => True, fun _ => True, True⟩

/-- Whether the scope covers the binding of a record and the roster of its factory. -/
def Scope.Covers (scope : Scope) (r : Record) : Prop :=
  scope.bound r.pid ∧ ∀ f, r.factoryPid = some f → scope.factories f

/-- A scope within which any binding and any roster may be written. -/
structure Scope.Wide (scope : Scope) : Prop where
  bound : ∀ pid, scope.bound pid
  factories : ∀ f, scope.factories f

theorem Scope.Wide.covers {scope : Scope} (h : scope.Wide) (r : Record) : scope.Covers r :=
  ⟨h.bound r.pid, fun f _ => h.factories f⟩

/-- Properties that carry the automatic pids of the record. -/
def Record.Stamped (r : Record) : Prop := ∀ p, r.properties = some p → r.stamp p = p

/-- What a stamp depends on. -/
theorem Record.Stamped.of_content {r r' : Record} (h : r.Stamped) (hc : r.SameContent r') :
    r'.Stamped := by
  intro p hp
  rw [hc.properties] at hp
  rw [Record.stamp, hc.pid, hc.factoryPid]
  exact h p hp

/-- A roster that lists its members in order, and nobody twice. -/
def Roster.Sorted (r : Roster) : Prop := r.members.Pairwise (· < ·)

/-- A roster that came of another one of the factory. -/
structure Roster.Revises (r' r : Roster) : Prop where
  factoryPid : r'.factoryPid = r.factoryPid
  home : r'.home = r.home
  sorted : r.Sorted → r'.Sorted
  distinct : r.members.Nodup → r'.members.Nodup

namespace View

variable (v : View)

/-- A task is queued behind the others, or not at all. -/
theorem waiting_enqueue (t : Task) :
    ∃ queued, (v.enqueue t).waiting = v.waiting ++ queued ∧ ∀ t' ∈ queued, t' = t := by
  rw [enqueue_eq]
  dsimp only
  split
  · exact ⟨[t], rfl, fun _ ht => List.mem_singleton.mp ht⟩
  · exact ⟨[], (List.append_nil _).symm, fun _ ht => absurd ht List.not_mem_nil⟩

@[simp] theorem length_adopt (r : Record) :
    (v.adopt r).records.length = v.records.length + 1 := by
  simp [adopt, enroll]

/-- Deletes a record, which leaves the cache. -/
def expunge (h : Handle) : View :=
  { v.change h fun r => { r with deleted := true } with
    cached := v.cached.erase (v.record h).pid }

@[simp] theorem length_expunge (h : Handle) :
    (v.expunge h).records.length = v.records.length :=
  v.length_change h _

/-- Nothing but the standing of the record is touched. -/
theorem record_expunge_of_eq {α : Type} {q : Record → α}
    (hq : ∀ r : Record, q { r with deleted := true } = q r) (h h' : Handle) :
    q ((v.expunge h).record h') = q (v.record h') :=
  v.record_change_of_eq hq h h'

theorem record_expunge_ne {h h' : Handle} (hne : h' ≠ h) :
    (v.expunge h).record h' = v.record h' :=
  v.record_change_ne hne _

theorem deleted_expunge {h : Handle} (hl : h < v.records.length) :
    ((v.expunge h).record h).deleted = true :=
  congrArg Record.deleted (v.record_change_self hl _)

theorem cached_expunge (h : Handle) (pid : String) :
    (v.expunge h).cached.get? pid =
      if pid = (v.record h).pid then none else v.cached.get? pid :=
  Table.get?_erase v.cached (v.record h).pid pid

end View

namespace Session

variable {scope : Scope} {s s' s'' : Session}

/-- A record that is there is cached, unless it was deleted. -/
def Minds (s : Session) (h : Handle) : Prop :=
  h < s.view.records.length ∧
    ((s.record h).deleted = false → s.view.cached.get? (s.record h).pid = some h)

/-- A record of the session whose entries may be written. -/
def Heeds (s : Session) (scope : Scope) (h : Handle) : Prop :=
  s.Minds h ∧ scope.Covers (s.record h)

/-- Neither the bindings nor the storage are written. -/
structure WritesNothing (s s' : Session) : Prop where
  bindings : s'.bindings = s.bindings
  storage : s'.storage = s.storage

/-- Of what a session knows of configurations nothing changes but marks. -/
structure SameButMarks (s s' : Session) : Prop extends WritesNothing s s' where
  cached : s'.view.cached = s.view.cached
  rosters : s'.view.rosters = s.view.rosters
  waiting : s'.view.waiting <:+ s.view.waiting
  length : s'.view.records.length = s.view.records.length
  content : ∀ h, (s.record h).SameContent (s'.record h)
  bound : ∀ h, (s'.record h).dynamicLocation = (s.record h).dynamicLocation

/-- Tasks may be taken from the front, and what is queued behind the others speaks of records that
may be dealt with. -/
def Queues (scope : Scope) (s s' : Session) : Prop :=
  ∃ queued, s'.view.waiting <:+ s.view.waiting ++ queued ∧
    ∀ t ∈ queued, ∀ h ∈ t.records, s.Heeds scope h

/-- One stroke. -/
inductive Stroke (scope : Scope) (s s' : Session) : Prop
  | sameButMarks (same : s.SameButMarks s')
  /-- A record is loaded or made, with the binding that is remembered for it, and cached. -/
  | adopt {r : Record} (absent : s.view.cached.get? r.pid = none) (undeleted : r.deleted = false)
    (bound : r.dynamicLocation = none ∨
      (r.staticLocation = none ∧ r.dynamicLocation = s.bindings.get? r.pid))
    (stamped : r.Stamped) (view : s'.view = s.view.adopt r) (same : s.WritesNothing s')
  /-- Properties are committed. -/
  | commit {h : Handle} {p : Properties} (view : s'.view = s.view.change h fun r => r.commit p)
    (same : s.WritesNothing s')
  /-- A configuration is stored. -/
  | store {home pid : String} {d : Properties} (within : scope.stored pid)
    (stored : s.storage.store home pid d = .ok s'.storage) (view : s'.view = s.view)
    (bindings : s'.bindings = s.bindings)
  /-- A configuration is taken out of the storage. -/
  | remove {home pid : String} (within : scope.stored pid)
    (stored : s.storage.delete home pid = .ok s'.storage) (view : s'.view = s.view)
    (bindings : s'.bindings = s.bindings)
  /-- A roster is found in the storage, or there is none yet. -/
  | found {r : Roster} (unknown : s.view.rosters.get? r.factoryPid = none)
    (distinct : r.members.Nodup)
    (source : (∃ home, s.storage.firstHaving (Roster.idOf r.factoryPid) = some home ∧
        Roster.load r.factoryPid home s.storage = .ok r) ∨
      s.storage.firstHaving (Roster.idOf r.factoryPid) = none ∧
        s.storage.primary = .ok r.home ∧ r.members = [])
    (view : s'.view = s.view.file r) (same : s.WritesNothing s')
  /-- A roster is revised and stored. -/
  | enlist {f : String} {r r' : Roster} (within : scope.factories r'.factoryPid)
    (known : s.view.rosters.get? f = some r) (revises : r'.Revises r)
    (stored : r'.store s.storage = .ok s'.storage) (view : s'.view = s.view.file r')
    (bindings : s'.bindings = s.bindings)
  /-- A roster is revised and cannot be stored. -/
  | lag {f : String} {r r' : Roster} {e : StorageError}
    (known : s.view.rosters.get? f = some r) (revises : r'.Revises r)
    (failed : r'.store s.storage = .error e) (view : s'.view = s.view.file r')
    (same : s.WritesNothing s')
  /-- A record that nobody owns is bound. -/
  | bind {h : Handle} {location : String} (within : scope.bound (s.record h).pid)
    (minds : s.Minds h) (undeleted : (s.record h).deleted = false)
    (unowned : (s.record h).owner = none)
    (view : s'.view = s.view.change h fun r => r.bind location)
    (written : (s'.bindings, s'.storage) =
      s.bindings.put (s.record h).pid (some location) s.storage)
  /-- The static location of a record is set or cleared, and with it any binding. -/
  | settle {h : Handle} {location : Option String} (within : scope.bound (s.record h).pid)
    (cached : s.view.cached.get? (s.record h).pid = some h)
    (view : s'.view = s.view.change h fun r => r.relocate location)
    (written : (s'.bindings, s'.storage) = s.bindings.put (s.record h).pid none s.storage)
  /-- A record is deleted, and leaves the cache and the bindings. -/
  | drop {h : Handle} (within : scope.bound (s.record h).pid)
    (cached : s.view.cached.get? (s.record h).pid = some h)
    (view : s'.view = s.view.expunge h)
    (written : (s'.bindings, s'.storage) = s.bindings.put (s.record h).pid none s.storage)
  /-- All bindings to a location are dropped, in the table and in the cached records. -/
  | vacate {location : String} (within : ∀ pid ∈ s.bindings.boundTo location, scope.bound pid)
    (cached : s'.view.cached = s.view.cached) (rosters : s'.view.rosters = s.view.rosters)
    (waiting : s.Queues scope s')
    (length : s'.view.records.length = s.view.records.length)
    (content : ∀ h, (s.record h).SameContent (s'.record h))
    (released : ∀ pid h, s.view.cached.get? pid = some h →
      (s'.record h).dynamicLocation = ((s.record h).release location).dynamicLocation)
    (written : (s'.bindings, s'.storage) =
      Bindings.withdrawAll (s.bindings.boundTo location) (s.bindings, s.storage))
  /-- A task is queued. -/
  | queue {t : Task} (heeds : ∀ h ∈ t.records, s.Heeds scope h) (view : s'.view = s.view.enqueue t)
    (same : s.WritesNothing s')
  /-- Somebody else writes to the backends. -/
  | tamper (within : scope.tampering) (view : s'.view = s.view)
    (bindings : s'.bindings = s.bindings)

/-- A sequence of strokes. -/
abbrev Strokes (scope : Scope) : Session → Session → Prop := ReflTransGen (Stroke scope)

theorem Stroke.single (hs : Stroke scope s s') : Strokes scope s s' := ReflTransGen.single hs

/-! ### What every stroke keeps -/

theorem record_of_view (hv : s'.view = s.view) (h : Handle) : s'.record h = s.record h := by
  rw [← record_view, hv, record_view]

theorem SameButMarks.refl (s : Session) : s.SameButMarks s :=
  ⟨⟨rfl, rfl⟩, rfl, rfl, List.suffix_rfl, rfl, fun _ => .refl _, fun _ => rfl⟩

theorem SameButMarks.trans (h : s.SameButMarks s') (h' : s'.SameButMarks s'') :
    s.SameButMarks s'' where
  bindings := h'.bindings.trans h.bindings
  storage := h'.storage.trans h.storage
  cached := h'.cached.trans h.cached
  rosters := h'.rosters.trans h.rosters
  waiting := h'.waiting.trans h.waiting
  length := h'.length.trans h.length
  content := fun i => (h.content i).trans (h'.content i)
  bound := fun i => (h'.bound i).trans (h.bound i)

/-- Whatever else changes is of no concern. -/
theorem SameButMarks.of_parts (hrecords : s'.records = s.records) (hcache : s'.cache = s.cache)
    (hupdates : s'.updates = s.updates) (hbindings : s'.bindings = s.bindings)
    (hstorage : s'.storage = s.storage) : s.SameButMarks s' := by
  have hrec : ∀ h, s'.record h = s.record h := by
    intro h
    unfold record World.record
    rw [hrecords]
  have hwaiting : s'.view.waiting = s.view.waiting := congrArg WorkLine.waiting hupdates
  refine ⟨⟨hbindings, hstorage⟩, congrArg Cache.records hcache, congrArg Cache.rosters hcache,
    hwaiting ▸ List.suffix_rfl, congrArg List.length hrecords, fun h => ?_, fun h => ?_⟩
  · rw [hrec]
    exact .refl _
  · rw [hrec]

/-- The cached records are the same ones, none of them deleted since. -/
structure Level (s s' : Session) : Prop where
  cached : s'.view.cached = s.view.cached
  length : s'.view.records.length = s.view.records.length
  pid : ∀ h, (s'.record h).pid = (s.record h).pid
  factoryPid : ∀ h, (s'.record h).factoryPid = (s.record h).factoryPid
  deleted : ∀ h, (s'.record h).deleted = (s.record h).deleted

theorem Level.of_view (hv : s'.view = s.view) : s.Level s' :=
  ⟨by rw [hv], by rw [hv], fun h => by rw [record_of_view hv], fun h => by rw [record_of_view hv],
    fun h => by rw [record_of_view hv]⟩

theorem Level.of_content (hc : s'.view.cached = s.view.cached)
    (hl : s'.view.records.length = s.view.records.length)
    (hr : ∀ h, (s.record h).SameContent (s'.record h)) : s.Level s' :=
  ⟨hc, hl, fun h => (hr h).pid, fun h => (hr h).factoryPid, fun h => (hr h).deleted⟩

theorem Level.of_change {h : Handle} {f : Record → Record} (hv : s'.view = s.view.change h f)
    (hpid : ∀ r, (f r).pid = r.pid) (hfac : ∀ r, (f r).factoryPid = r.factoryPid)
    (hdel : ∀ r, (f r).deleted = r.deleted) : s.Level s' where
  cached := by rw [hv]; rfl
  length := by rw [hv, View.length_change]
  pid := fun i => by rw [← record_view, hv, s.view.record_change_of_eq hpid, record_view]
  factoryPid := fun i => by rw [← record_view, hv, s.view.record_change_of_eq hfac, record_view]
  deleted := fun i => by rw [← record_view, hv, s.view.record_change_of_eq hdel, record_view]

/-- A stroke leaves the cached records the same ones, or adds one, or deletes one. -/
theorem Stroke.kinds (hs : Stroke scope s s') : s.Level s' ∨
    (∃ r, s.view.cached.get? r.pid = none ∧ r.deleted = false ∧ s'.view = s.view.adopt r) ∨
    ∃ h, s.view.cached.get? (s.record h).pid = some h ∧
      s'.view = s.view.expunge h := by
  cases hs with
  | sameButMarks hsame => exact Or.inl (.of_content hsame.cached hsame.length hsame.content)
  | adopt absent undeleted _ _ view => exact Or.inr (Or.inl ⟨_, absent, undeleted, view⟩)
  | commit view => exact Or.inl (.of_change view (fun _ => rfl) (fun _ => rfl) fun _ => rfl)
  | store _ _ view | remove _ _ view | tamper _ view => exact Or.inl (.of_view view)
  | found _ _ _ view | enlist _ _ _ _ view | lag _ _ _ view =>
    refine Or.inl (.of_content ?_ ?_ fun h => ?_)
    · rw [view]
      rfl
    · rw [view]
      rfl
    · rw [← record_view s', view]
      exact .refl _
  | bind _ _ _ _ view =>
    refine Or.inl (.of_change view (fun r => ?_) (fun r => ?_) fun r => ?_)
    · exact (r.sameContent_bind _).pid
    · exact (r.sameContent_bind _).factoryPid
    · exact (r.sameContent_bind _).deleted
  | settle _ _ view => exact Or.inl (.of_change view (fun _ => rfl) (fun _ => rfl) fun _ => rfl)
  | drop _ cached view => exact Or.inr (Or.inr ⟨_, cached, view⟩)
  | vacate _ cached _ _ length content => exact Or.inl (.of_content cached length content)
  | queue _ view =>
    refine Or.inl (.of_content ?_ ?_ fun h => ?_)
    · rw [view, View.enqueue_eq]
    · rw [view, View.enqueue_eq]
    · rw [← record_view s', view, View.record_enqueue]
      exact .refl _

/-- A session after another: records are added, cached or deleted, and stay whose they are. -/
structure Follows (s s' : Session) : Prop where
  length : s.view.records.length ≤ s'.view.records.length
  pid : ∀ h < s.view.records.length, (s'.record h).pid = (s.record h).pid
  factoryPid : ∀ h < s.view.records.length, (s'.record h).factoryPid = (s.record h).factoryPid
  minds : ∀ h, s.Minds h → s'.Minds h

theorem Follows.refl (s : Session) : s.Follows s :=
  ⟨Nat.le_refl _, fun _ _ => rfl, fun _ _ => rfl, fun _ hm => hm⟩

theorem Follows.trans (h : s.Follows s') (h' : s'.Follows s'') : s.Follows s'' where
  length := Nat.le_trans h.length h'.length
  pid := fun i hi => (h'.pid i (Nat.lt_of_lt_of_le hi h.length)).trans (h.pid i hi)
  factoryPid := fun i hi =>
    (h'.factoryPid i (Nat.lt_of_lt_of_le hi h.length)).trans (h.factoryPid i hi)
  minds := fun i hi => h'.minds i (h.minds i hi)

theorem Follows.heeds (hf : s.Follows s') {h : Handle} (hh : s.Heeds scope h) :
    s'.Heeds scope h := by
  obtain ⟨hminds, hbound, hfactories⟩ := hh
  refine ⟨hf.minds h hminds, ?_, fun f he => hfactories f ?_⟩
  · rw [hf.pid h hminds.1]
    exact hbound
  · rw [← hf.factoryPid h hminds.1]
    exact he

theorem Level.follows (hl : s.Level s') : s.Follows s' := by
  refine ⟨Nat.le_of_eq hl.length.symm, fun h _ => hl.pid h, fun h _ => hl.factoryPid h,
    fun h hm => ?_⟩
  unfold Minds
  rw [hl.length, hl.deleted, hl.cached, hl.pid]
  exact hm

theorem Stroke.follows (hs : Stroke scope s s') : s.Follows s' := by
  rcases hs.kinds with hl | ⟨r, absent, undeleted, view⟩ | ⟨h, cached, view⟩
  · exact hl.follows
  · have hrec : ∀ i < s.view.records.length, s'.record i = s.record i := by
      intro i hi
      rw [← record_view, view]
      exact s.view.record_enroll_lt hi r
    have hlen : s.view.records.length ≤ s'.view.records.length := by
      rw [view, View.length_adopt]
      exact Nat.le_succ _
    refine ⟨hlen, fun i hi => by rw [hrec i hi], fun i hi => by rw [hrec i hi], fun i hi => ?_⟩
    obtain ⟨hlt, hcached⟩ := hi
    refine ⟨Nat.lt_of_lt_of_le hlt hlen, fun hdel => ?_⟩
    rw [hrec i hlt] at hdel ⊢
    rw [view, View.cached_adopt, if_neg]
    · exact hcached hdel
    · -- nothing was cached under the pid of the new record
      intro he
      rw [← he, hcached hdel] at absent
      cases absent
  · have hpid : ∀ i, (s'.record i).pid = (s.record i).pid := by
      intro i
      rw [← record_view, view]
      exact s.view.record_expunge_of_eq (fun _ => rfl) h i
    have hlen : s'.view.records.length = s.view.records.length := by
      rw [view, View.length_expunge]
    refine ⟨Nat.le_of_eq hlen.symm, fun i _ => hpid i, fun i _ => ?_, fun i hi => ?_⟩
    · rw [← record_view, view]
      exact s.view.record_expunge_of_eq (fun _ => rfl) h i
    obtain ⟨hlt, hcached⟩ := hi
    refine ⟨hlen ▸ hlt, fun hdel => ?_⟩
    rw [hpid, view, View.cached_expunge]
    rw [← record_view, view] at hdel
    by_cases he : i = h
    · subst he
      rw [s.view.deleted_expunge hlt] at hdel
      cases hdel
    · rw [s.view.record_expunge_ne he] at hdel
      rw [if_neg, hcached hdel]
      -- another record of the pid would be cached in its place
      intro hp
      have hi := hcached hdel
      rw [show (s.record i).pid = (s.record h).pid from hp, cached] at hi
      exact he (Option.some.inj hi).symm

theorem Queues.of_suffix (h : s'.view.waiting <:+ s.view.waiting) : s.Queues scope s' :=
  ⟨[], (List.append_nil s.view.waiting).symm ▸ h, fun _ ht => absurd ht List.not_mem_nil⟩

theorem Stroke.queues (hs : Stroke scope s s') : s.Queues scope s' := by
  cases hs with
  | sameButMarks hsame => exact .of_suffix hsame.waiting
  | vacate _ _ _ waiting => exact waiting
  | @queue t heeds view =>
    obtain ⟨queued, hqueued, hall⟩ := s.view.waiting_enqueue t
    rw [← view] at hqueued
    refine ⟨queued, hqueued ▸ List.suffix_rfl, fun t' ht' => ?_⟩
    rw [hall t' ht']
    exact heeds
  | adopt _ _ _ _ view | commit view | store _ _ view | remove _ _ view | found _ _ _ view
  | enlist _ _ _ _ view | lag _ _ _ view | bind _ _ _ _ view | settle _ _ view | drop _ _ view
  | tamper _ view =>
    have hwaiting : s'.view.waiting = s.view.waiting :=
      (congrArg View.waiting view).trans rfl
    exact .of_suffix (hwaiting ▸ List.suffix_rfl)

/-- Rosters change by being filed. -/
theorem Stroke.rosters (hs : Stroke scope s s') :
    s'.view.rosters = s.view.rosters ∨
      ∃ r, s'.view = s.view.file r ∧ (s.view.Filed → r.members.Nodup) := by
  cases hs with
  | @found r _ distinct _ view => exact Or.inr ⟨r, view, fun _ => distinct⟩
  | @enlist f r r' _ known revises _ view =>
    exact Or.inr ⟨r', view, fun hv => revises.distinct (hv.distinct f r known)⟩
  | @lag f r r' _ known revises _ view =>
    exact Or.inr ⟨r', view, fun hv => revises.distinct (hv.distinct f r known)⟩
  | sameButMarks hsame => exact Or.inl hsame.rosters
  | vacate _ _ rosters => exact Or.inl rosters
  | store _ _ view | remove _ _ view | tamper _ view => exact Or.inl (by rw [view])
  | queue _ view => exact Or.inl (by rw [view, View.enqueue_eq])
  | adopt _ _ _ _ view | commit view | bind _ _ _ _ view | settle _ _ view | drop _ _ view =>
    left
    rw [view]
    rfl

/-- Records stay filed, and so do rosters. -/
theorem Stroke.filed (hs : Stroke scope s s') (hv : s.view.Filed) : s'.view.Filed := by
  have hheld : ∀ pid h, s'.view.cached.get? pid = some h → h < s'.view.records.length ∧
      (s'.record h).pid = pid ∧ (s'.record h).deleted = false := by
    intro pid i hc
    rcases hs.kinds with hl | ⟨r, absent, undeleted, view⟩ | ⟨h, cached, view⟩
    · rw [hl.length, hl.pid, hl.deleted]
      rw [hl.cached] at hc
      exact hv.held pid i hc
    · rw [view, View.cached_adopt] at hc
      rw [← record_view, view, View.length_adopt]
      split at hc
      · next he =>
        cases hc
        have hrec : (s.view.adopt r).record s.view.records.length = r :=
          s.view.record_enroll_new r
        rw [hrec]
        exact ⟨Nat.lt_succ_self _, he.symm, undeleted⟩
      · obtain ⟨hlt, hpid, hdel⟩ := hv.held pid i hc
        have hrec : (s.view.adopt r).record i = s.view.record i := s.view.record_enroll_lt hlt r
        rw [hrec]
        exact ⟨Nat.lt_succ_of_lt hlt, hpid, hdel⟩
    · rw [view, View.cached_expunge] at hc
      split at hc
      · cases hc
      · next hne =>
        obtain ⟨hlt, hpid, hdel⟩ := hv.held pid i hc
        have hi : i ≠ h := by
          rintro rfl
          exact hne hpid.symm
        rw [← record_view, view, s.view.record_expunge_ne hi, View.length_expunge]
        exact ⟨hlt, hpid, hdel⟩
  rcases hs.rosters with he | ⟨r, hr, hdistinct⟩
  · refine ⟨hheld, fun f r hr => ?_, fun f r hr => ?_⟩
    · exact hv.titled f r (he ▸ hr)
    · exact hv.distinct f r (he ▸ hr)
  · have hfiled := hv.file (hdistinct hv)
    rw [← hr] at hfiled
    exact ⟨hheld, hfiled.titled, hfiled.distinct⟩

theorem minds_of_cached (hv : s.view.Filed) {pid : String} {h : Handle}
    (hc : s.view.cached.get? pid = some h) : s.Minds h := by
  obtain ⟨hlt, hpid, -⟩ := hv.held pid h hc
  exact ⟨hlt, fun _ => (congrArg s.view.cached.get? hpid).trans hc⟩

/-- A session in which records are filed, and the waiting tasks speak of records that are cached
or deleted. -/
structure Tidy (s : Session) : Prop where
  filed : s.view.Filed
  tasks : ∀ t ∈ s.view.waiting, ∀ h ∈ t.records, s.Minds h

theorem Stroke.tidy (hs : Stroke scope s s') (ht : s.Tidy) : s'.Tidy := by
  refine ⟨hs.filed ht.filed, fun t hm h hh => hs.follows.minds h ?_⟩
  obtain ⟨queued, hsuffix, hheeds⟩ := hs.queues
  rcases List.mem_append.mp (hsuffix.subset hm) with hold | hnew
  · exact ht.tasks t hold h hh
  · exact (hheeds t hnew h hh).1

/-- No stroke leaves a record without its pids. -/
theorem Stroke.stamped (hs : Stroke scope s s') {i : Handle} (h : (s.record i).Stamped) :
    (s'.record i).Stamped := by
  have hchange : ∀ {j f}, s'.view = s.view.change j f →
      (∀ r : Record, r.Stamped → (f r).Stamped) → (s'.record i).Stamped := by
    intro j f view hf
    rw [← record_view s', view, View.record_change]
    split
    · next he => exact hf _ (he.1 ▸ h)
    · exact h
  cases hs with
  | sameButMarks hsame => exact h.of_content (hsame.content i)
  | vacate _ _ _ _ _ content => exact h.of_content (content i)
  | store _ _ view | remove _ _ view | tamper _ view => exact (record_of_view view i).symm ▸ h
  | found _ _ _ view | enlist _ _ _ _ view | lag _ _ _ view =>
    rw [← record_view s', view]
    exact h
  | queue _ view =>
    rw [← record_view s', view, View.record_enqueue]
    exact h
  | commit view =>
    refine hchange view fun r _ => ?_
    rintro p ⟨⟩
    exact Properties.stamp_stamp _ _ _
  | bind _ _ _ _ view => exact hchange view fun r hr => hr.of_content (r.sameContent_bind _)
  | settle _ _ view => exact hchange view fun r hr => hr
  | @adopt r _ _ _ stamped view =>
    rw [← record_view s', view]
    rcases Nat.lt_trichotomy i s.view.records.length with hlt | rfl | hgt
    · exact (s.view.record_enroll_lt hlt r).symm ▸ h
    · exact (s.view.record_enroll_new r).symm ▸ stamped
    · exact (s.view.record_enroll_gt hgt r).symm ▸ h
  | @drop j _ _ view =>
    rw [← record_view s', view,
      s.view.record_expunge_of_eq (q := Record.Stamped) (fun _ => rfl) j i]
    exact h

namespace Strokes

theorem stamped (hs : Strokes scope s s') {i : Handle} (h : (s.record i).Stamped) :
    (s'.record i).Stamped := by
  induction hs with
  | refl => exact h
  | tail _ hlast ih => exact hlast.stamped ih

theorem tail (hs : Strokes scope s s') (hlast : Stroke scope s' s'') : Strokes scope s s'' :=
  ReflTransGen.tail hs hlast

theorem trans (hs : Strokes scope s s') (hs' : Strokes scope s' s'') : Strokes scope s s'' :=
  ReflTransGen.trans hs hs'

theorem follows (hs : Strokes scope s s') : s.Follows s' := by
  induction hs with
  | refl => exact .refl s
  | tail _ hlast ih => exact ih.trans hlast.follows

theorem filed (hs : Strokes scope s s') (hv : s.view.Filed) : s'.view.Filed := by
  induction hs with
  | refl => exact hv
  | tail _ hlast ih => exact hlast.filed ih

theorem tidy (hs : Strokes scope s s') (ht : s.Tidy) : s'.Tidy := by
  induction hs with
  | refl => exact ht
  | tail _ hlast ih => exact hlast.tidy ih

theorem queues (hs : Strokes scope s s') :
    ∃ queued, s'.view.waiting <:+ s.view.waiting ++ queued ∧
      ∀ t ∈ queued, ∀ h ∈ t.records, s'.Heeds scope h := by
  induction hs with
  | refl =>
    exact ⟨[], (List.append_nil s.view.waiting).symm ▸ List.suffix_rfl,
      fun _ ht => absurd ht List.not_mem_nil⟩
  | @tail s₁ s₂ _ hlast ih =>
    obtain ⟨queued, hsuffix, hheeds⟩ := ih
    obtain ⟨more, hsuffix', hheeds'⟩ := hlast.queues
    refine ⟨queued ++ more, ?_, fun t ht h hh => hlast.follows.heeds ?_⟩
    · obtain ⟨front, hfront⟩ := hsuffix
      rw [← List.append_assoc]
      exact hsuffix'.trans ⟨front, by rw [← List.append_assoc, hfront]⟩
    · rcases List.mem_append.mp ht with ht | ht
      · exact hheeds t ht h hh
      · exact hheeds' t ht h hh

end Strokes
end Session
end Provisioning
