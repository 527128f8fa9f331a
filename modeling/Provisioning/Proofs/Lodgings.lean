import Provisioning.Proofs.Chains
import Provisioning.Proofs.Isolation
import Provisioning.Proofs.Mirror
import Provisioning.Proofs.Rebuilding
import Provisioning.Proofs.Writing

/-! # Where a pid is lodged

What a session knows of the place of one pid is what the backends hold under it, and the home of the
record that is cached.  Few things happen to that: the record is loaded from where it is found, or
made where nothing is found; it is stored at its home, or removed from there; and it is forgotten.
`Shift` lists them, with what was checked before, and every action comes down to a sequence of them
(`step_passage`).  So what a pid's place keeps through one shift it keeps through any session.

Bindings and rosters are stored under ids of their own, and are no shifts.
-/
namespace Provisioning

open Relation (ReflTransGen)

/-- The place of one pid: what the backends hold under it, and the home of the cached record. -/
@[ext]
structure Lodging where
  held : String → Option Properties
  home? : Option String

namespace Lodging

variable {c : Chain} {pid : String} {made : Prop} {v v' : Lodging} {home : String}

/-- The first backend along a chain that holds something. -/
def first? (v : Lodging) (c : Chain) : Option String :=
  (c.find? fun l => (v.held l.backend).isSome).map Link.backend

/-- The seat of a pid: the first backend that holds something; if none does, the primary. -/
def Seats (v : Lodging) (c : Chain) (home : String) : Prop :=
  v.first? c = some home ∨ v.first? c = none ∧ c.head?.map Link.backend = some home

/-- Something is stored in one of the backends, or nothing is left there. -/
def put (v : Lodging) (home : String) (d : Option Properties) : Lodging :=
  { v with held := fun name => if name = home then d else v.held name }

/-- What happens to the place of a pid, when records of it may be made or may not. -/
inductive Shift (c : Chain) (pid : String) (made : Prop) : Lodging → Lodging → Prop
  /-- A record is loaded from the first backend that has one. -/
  | load {v : Lodging} {home : String} (uncached : v.home? = none)
    (first : v.first? c = some home) : Shift c pid made v { v with home? := some home }
  /-- A record is made for the primary, where nothing is found that carries a pid. -/
  | make {v : Lodging} {home : String} (within : made) (uncached : v.home? = none)
    (unnamed : ∀ name d, v.first? c = some name → v.held name = some d →
      d.contains Properties.pidKey = false)
    (primary : c.head?.map Link.backend = some home) :
    Shift c pid made v { v with home? := some home }
  /-- A record is stored at its home. -/
  | store {v : Lodging} {home : String} {d : Properties} (cached : v.home? = some home)
    (carries : Properties.text? d Properties.pidKey = some pid) :
    Shift c pid made v (v.put home (some d))
  /-- A record is removed from its home, and forgotten. -/
  | remove {v : Lodging} {home : String} (cached : v.home? = some home) :
    Shift c pid made v { v.put home none with home? := none }
  | forget {v : Lodging} : Shift c pid made v { v with home? := none }

theorem Shift.mono {made' : Prop} (h : Shift c pid made v v') (hm : made → made') :
    Shift c pid made' v v' := by
  cases h with
  | load uncached first => exact .load uncached first
  | make within uncached unnamed primary => exact .make (hm within) uncached unnamed primary
  | store cached carries => exact .store cached carries
  | remove cached => exact .remove cached
  | forget => exact .forget

/-! ### One seat -/

theorem first?_eq_none_iff : v.first? c = none ↔ ∀ l ∈ c, v.held l.backend = none := by
  simp [first?]

theorem exists_of_first? (h : v.first? c = some home) :
    ∃ l ∈ c, l.backend = home ∧ v.held home ≠ none := by
  obtain ⟨l, hl, rfl⟩ := Option.map_eq_some_iff.mp h
  have hheld := List.find?_some hl
  exact ⟨l, List.mem_of_find?_eq_some hl, rfl, Option.isSome_iff_ne_none.mp hheld⟩

/-- Nothing is held in two backends of a chain. -/
def Sole (v : Lodging) (c : Chain) : Prop :=
  ∀ l ∈ c, ∀ l' ∈ c, v.held l.backend ≠ none → v.held l'.backend ≠ none → l.backend = l'.backend

theorem Sole.first?_eq (hv : v.Sole c) {l : Link} (hl : l ∈ c) (hheld : v.held l.backend ≠ none) :
    v.first? c = some l.backend := by
  cases hf : v.first? c with
  | none => exact absurd (first?_eq_none_iff.mp hf l hl) hheld
  | some home =>
    obtain ⟨l', hl', rfl, hheld'⟩ := exists_of_first? hf
    rw [hv l hl l' hl' hheld hheld']

theorem Seats.mem (h : v.Seats c home) : ∃ l ∈ c, l.backend = home := by
  rcases h with hf | ⟨-, hp⟩
  · obtain ⟨l, hl, he, -⟩ := exists_of_first? hf
    exact ⟨l, hl, he⟩
  · obtain ⟨l, hl, he⟩ := Option.map_eq_some_iff.mp hp
    exact ⟨l, List.mem_of_head? hl, he⟩

/-- Whatever is held is held at the seat. -/
theorem Seats.backend_eq (h : v.Seats c home) (hv : v.Sole c) {l : Link} (hl : l ∈ c)
    (hheld : v.held l.backend ≠ none) : l.backend = home := by
  rcases h with hf | ⟨hf, -⟩
  · exact Option.some.inj ((hv.first?_eq hl hheld).symm.trans hf)
  · exact absurd (first?_eq_none_iff.mp hf l hl) hheld

/-- A pid that has one place at most: nothing is held twice, and the cached record has its home
there.  If records of it may be made, what is held carries the pid. -/
structure Settled (c : Chain) (pid : String) (made : Prop) (v : Lodging) : Prop where
  sole : v.Sole c
  carries : made → ∀ l ∈ c, ∀ d, v.held l.backend = some d →
    Properties.text? d Properties.pidKey = some pid
  seated : ∀ home, v.home? = some home → v.Seats c home

/-- A pid that has no place. -/
structure Vacant (c : Chain) (v : Lodging) : Prop where
  uncached : v.home? = none
  unheld : ∀ l ∈ c, v.held l.backend = none

theorem contains_of_text? {d : Properties} {key s : String}
    (h : Properties.text? d key = some s) : d.contains key = true := by
  obtain ⟨v, hv, -⟩ := Option.bind_eq_some_iff.mp h
  rw [Table.contains_eq_isSome, hv, Option.isSome_some]

/-- What is removed from its seat is held nowhere. -/
theorem Settled.vacant (hv : v.Settled c pid made) (hcached : v.home? = some home) :
    Vacant c { v.put home none with home? := none } where
  uncached := rfl
  unheld := by
    intro l hl
    show (if l.backend = home then none else v.held l.backend) = none
    split
    · rfl
    · next hne =>
      by_contra hheld
      exact hne ((hv.seated home hcached).backend_eq hv.sole hl hheld)

theorem Vacant.settled (hv : v.Vacant c) : v.Settled c pid made where
  sole := fun l hl _ _ hheld => absurd (hv.unheld l hl) hheld
  carries := by
    intro _ l hl d hd
    rw [hv.unheld l hl] at hd
    cases hd
  seated := by
    intro home hh
    rw [hv.uncached] at hh
    cases hh

/-- **One place.**  No shift gives a pid a second one. -/
theorem Shift.settled (hs : Shift c pid made v v') (hv : v.Settled c pid made) :
    v'.Settled c pid made := by
  cases hs with
  | @load home uncached first =>
    refine ⟨hv.sole, hv.carries, ?_⟩
    rintro _ ⟨⟩
    exact Or.inl first
  | @make home within uncached unnamed primary =>
    refine ⟨hv.sole, hv.carries, ?_⟩
    rintro _ ⟨⟩
    refine Or.inr ⟨?_, primary⟩
    -- whatever is held carries the pid, and would have been found
    by_contra hne
    obtain ⟨name, hname⟩ := Option.ne_none_iff_exists'.mp hne
    obtain ⟨l, hl, rfl, hheld⟩ := exists_of_first? hname
    obtain ⟨d, hd⟩ := Option.ne_none_iff_exists'.mp hheld
    have hnamed := contains_of_text? (hv.carries within l hl d hd)
    rw [unnamed _ d hname hd] at hnamed
    cases hnamed
  | @store home d cached carries =>
    have hseat := hv.seated home cached
    have hat : ∀ l ∈ c, (v.put home (some d)).held l.backend ≠ none → l.backend = home := by
      intro l hl hheld
      by_contra hne
      have hsame : (v.put home (some d)).held l.backend = v.held l.backend := if_neg hne
      rw [hsame] at hheld
      exact hne (hseat.backend_eq hv.sole hl hheld)
    have hsole : (v.put home (some d)).Sole c :=
      fun l hl l' hl' hheld hheld' => (hat l hl hheld).trans (hat l' hl' hheld').symm
    refine ⟨hsole, fun _ l hl d' hd' => ?_, fun home' hh => ?_⟩
    · obtain rfl := hat l hl (by rw [hd']; exact Option.some_ne_none d')
      have hself : (v.put l.backend (some d)).held l.backend = some d := if_pos rfl
      rw [hself] at hd'
      exact Option.some.inj hd' ▸ carries
    · obtain rfl : home = home' := Option.some.inj (cached.symm.trans hh)
      obtain ⟨l, hl, rfl⟩ := hseat.mem
      refine Or.inl (hsole.first?_eq hl ?_)
      have hself : (v.put l.backend (some d)).held l.backend = some d := if_pos rfl
      rw [hself]
      exact Option.some_ne_none d
  | remove cached => exact (hv.vacant cached).settled
  | forget => exact ⟨hv.sole, hv.carries, fun home hh => nomatch hh⟩

/-- No shift gives a place to a pid that has none, unless a record is made. -/
theorem Shift.vacant (hs : Shift c pid False v v') (hv : v.Vacant c) : v'.Vacant c := by
  cases hs with
  | load uncached first =>
    obtain ⟨l, hl, rfl, hheld⟩ := exists_of_first? first
    exact absurd (hv.unheld l hl) hheld
  | make within => exact within.elim
  | store cached | remove cached =>
    rw [hv.uncached] at cached
    cases cached
  | forget => exact ⟨rfl, hv.unheld⟩

end Lodging

namespace Storage

variable {st : Storage} {pid home : String}

/-- The seat of a pid: the first backend that holds it; if none does, the primary. -/
def Seats (st : Storage) (pid home : String) : Prop :=
  st.firstHaving pid = some home ∨ st.firstHaving pid = none ∧ st.primary = .ok home

theorem firstHaving_eq (st : Storage) (pid : String) : st.firstHaving pid =
    (st.chain.find? fun l => (st.held l.backend pid).isSome).map Link.backend := by
  unfold firstHaving Backend.holds
  simp only [Table.contains_eq_isSome]
  rfl

theorem held_of_load {name id : String} {d : Properties} (h : st.load name id = .ok d) :
    st.held name id = some d := by
  unfold load Backend.load at h
  split at h
  · cases h
  · split at h
    · next hd =>
      cases h
      exact hd
    · cases h

end Storage

namespace Session

variable {s s' s'' : Session} {pid : String} {made : Prop}

/-- The place of a pid in a session. -/
def lodging (s : Session) (pid : String) : Lodging where
  held := fun name => s.storage.held name pid
  home? := (s.view.cached.get? pid).map fun h => (s.record h).home

theorem first?_lodging (s : Session) (pid : String) :
    (s.lodging pid).first? s.storage.chain = s.storage.firstHaving pid :=
  (s.storage.firstHaving_eq pid).symm

theorem seats_lodging {home : String} :
    (s.lodging pid).Seats s.storage.chain home ↔ s.storage.Seats pid home := by
  unfold Lodging.Seats Storage.Seats
  rw [first?_lodging, Storage.primary_eq_ok_iff]

theorem home?_of_cached {h : Handle} (hc : s.view.cached.get? pid = some h) :
    (s.lodging pid).home? = some (s.record h).home := by
  rw [lodging, hc]
  rfl

theorem home?_of_absent (hc : s.view.cached.get? pid = none) : (s.lodging pid).home? = none := by
  rw [lodging, hc]
  rfl

/-- What happens to the place of a pid from one moment to another. -/
structure Passage (pid : String) (made : Prop) (s s' : Session) : Prop where
  id : s'.bindings.id = s.bindings.id
  chain : s'.storage.chain = s.storage.chain
  shifts : ReflTransGen (Lodging.Shift s.storage.chain pid made) (s.lodging pid) (s'.lodging pid)

namespace Passage

theorem refl (s : Session) : Passage pid made s s := ⟨rfl, rfl, .refl⟩

theorem trans (h : Passage pid made s s') (h' : Passage pid made s' s'') :
    Passage pid made s s'' where
  id := h'.id.trans h.id
  chain := h'.chain.trans h.chain
  shifts := h.shifts.trans (h.chain ▸ h'.shifts)

theorem mono {made' : Prop} (h : Passage pid made s s') (hm : made → made') :
    Passage pid made' s s' :=
  ⟨h.id, h.chain, ReflTransGen.mono (fun _ _ hs => Lodging.Shift.mono hs hm) _ _ h.shifts⟩

theorem of_lodging (hid : s'.bindings.id = s.bindings.id)
    (hchain : s'.storage.chain = s.storage.chain) (he : s'.lodging pid = s.lodging pid) :
    Passage pid made s s' :=
  ⟨hid, hchain, he ▸ .refl⟩

theorem settled (h : Passage pid made s s')
    (hs : (s.lodging pid).Settled s.storage.chain pid made) :
    (s'.lodging pid).Settled s'.storage.chain pid made := by
  have hshifts := h.shifts
  rw [h.chain]
  generalize s'.lodging pid = v at hshifts ⊢
  induction hshifts with
  | refl => exact hs
  | tail _ hlast ih => exact hlast.settled ih

theorem vacant (h : Passage pid False s s') (hs : (s.lodging pid).Vacant s.storage.chain) :
    (s'.lodging pid).Vacant s'.storage.chain := by
  have hshifts := h.shifts
  rw [h.chain]
  generalize s'.lodging pid = v at hshifts ⊢
  induction hshifts with
  | refl => exact hs
  | tail _ hlast ih => exact hlast.vacant ih

end Passage

/-! ### What is no shift -/

/-- Bindings and rosters are written at most, and every record stays where it is. -/
structure Unmoved (s s' : Session) : Prop extends s.SameStored s' where
  cached : s'.view.cached = s.view.cached
  home : ∀ h, (s'.record h).home = (s.record h).home

namespace Unmoved

theorem refl (s : Session) : s.Unmoved s := ⟨.refl s, rfl, fun _ => rfl⟩

theorem trans (h : s.Unmoved s') (h' : s'.Unmoved s'') : s.Unmoved s'' :=
  ⟨h.toSameStored.trans h'.toSameStored, h'.cached.trans h.cached,
    fun i => (h'.home i).trans (h.home i)⟩

theorem of_alike (hb : s.SameStored s') (ha : s.view.Alike s'.view) : s.Unmoved s' :=
  ⟨hb, ha.cached, fun h => (ha.content h).home⟩

/-- One record is changed, and keeps its home. -/
theorem of_change (hb : s.SameStored s') {h : Handle} {f : Record → Record}
    (hview : ∃ waiting, s'.view = { s.view.change h f with waiting })
    (hhome : ∀ r, (f r).home = r.home) : s.Unmoved s' := by
  obtain ⟨waiting, hview⟩ := hview
  refine ⟨hb, by rw [hview]; rfl, fun i => ?_⟩
  rw [← record_view, hview]
  exact s.view.record_change_of_eq hhome h i

/-- Bindings and rosters are stored under ids of their own, so that no place changes. -/
theorem passage (h : s.Unmoved s') (hfree : ¬Storage.Reserved s.bindings.id pid) :
    Passage pid made s s' := by
  refine .of_lodging h.id h.gainsNoConfiguration.chain (Lodging.ext ?_ ?_)
  · exact funext fun name => h.storage.others name pid hfree
  · show (s'.view.cached.get? pid).map _ = (s.view.cached.get? pid).map _
    rw [h.cached]
    exact congrArg (Option.map · _) (funext h.home)

end Unmoved

theorem factory_unmoved (s : Session) (f : String) : s.Unmoved (s.factory f).2 := by
  rcases s.factory_keeps f with he | ⟨r, he⟩
  · rw [he]
    exact .refl s
  · rw [he]
    exact ⟨s.keepRoster_sameStored r, rfl, fun _ => rfl⟩

theorem join_unmoved (s : Session) (h : Handle) : s.Unmoved (s.join h).2 := by
  have hcourse := s.joining h
  generalize s.join h = result at hcourse ⊢
  cases hcourse with
  | single => exact .refl s
  | refused => exact s.factory_unmoved _
  | @listed f roster s₁ _ found =>
    have hfactory := s.factory_unmoved f
    rwa [found] at hfactory
  | @joined f roster s₁ storage _ found _ stored =>
    have hfactory := s.factory_unmoved f
    rw [found] at hfactory
    exact hfactory.trans
      ⟨(storeRoster_sameStored stored).trans (keepRoster_sameStored _ _), rfl, fun _ => rfl⟩

theorem commit_change (s : Session) (h : Handle) (p : Properties) :
    ∃ waiting, (s.commit h p).view = { s.view.change h fun r => r.commit p with waiting } := by
  rw [view_commit, View.enqueue_eq]
  exact ⟨_, rfl⟩

theorem commit_unmoved (s : Session) (h : Handle) (p : Properties) : s.Unmoved (s.commit h p) :=
  .of_change (commit_sameStored s h p) (s.commit_change h p) fun _ => rfl

theorem resettle_unmoved (s : Session) (h : Handle) (pid : String) (location : Option String) :
    s.Unmoved (s.resettle h pid location) :=
  .of_change (resettle_sameStored s h pid location) (s.view_resettle h pid location) fun _ => rfl

theorem schedule_unmoved (s : Session) (t : Task) : s.Unmoved (s.schedule t) :=
  .of_alike (s.schedule_sameStored t) (by rw [view_schedule]; exact View.alike_enqueue _ t)

theorem prune_unmoved (s : Session) (before after : Roster) : s.Unmoved (s.prune before after) := by
  unfold prune
  split
  · dsimp only
    split
    · next storage hst =>
      exact ⟨(s.keepRoster_sameStored after).trans (storeRoster_sameStored hst), rfl, fun _ => rfl⟩
    · exact ⟨s.keepRoster_sameStored after, rfl, fun _ => rfl⟩
  · exact .refl s

/-! ### Looking up -/

/-- How a configuration is looked up. -/
inductive Finding (s : Session) (pid : String) :
    Except StorageError (Option Handle) × Session → Prop
  | cached {h : Handle} (cached : s.cache.record? pid = some h) : Finding s pid (.ok (some h), s)
  | failed {e : StorageError} : Finding s pid (.error e, s)
  | missing (uncached : s.cache.record? pid = none)
    (unnamed : ∀ home d, s.storage.firstHaving pid = some home →
      s.storage.held home pid = some d → d.contains Properties.pidKey = false) :
    Finding s pid (.ok none, s)
  | loaded {home : String} {d : Properties} {r : Record} (uncached : s.cache.record? pid = none)
    (first : s.storage.firstHaving pid = some home) (revived : s.revive pid home d = .ok r) :
    Finding s pid (.ok (some (s.keepRecord r).1), (s.keepRecord r).2)

theorem finding (s : Session) (pid : String) : s.Finding pid (s.configuration pid) := by
  unfold configuration
  split
  · next hc => exact .cached hc
  · next hc =>
    split
    · next hf =>
      refine .missing hc fun home d hhome => ?_
      rw [hf] at hhome
      cases hhome
    · next home hf =>
      split
      · exact .failed
      · next d hl =>
        split
        · next hunnamed =>
          refine .missing hc fun home' d' hhome hd => ?_
          obtain rfl : home = home' := Option.some.inj (hf.symm.trans hhome)
          rw [Storage.held_of_load hl, Option.some_inj] at hd
          simpa [← hd] using hunnamed
        · split
          · exact .failed
          · next hr => exact .loaded hc hf hr

theorem revive_home {home : String} {d : Properties} {r : Record}
    (h : s.revive pid home d = .ok r) : r.home = home := by
  unfold revive at h
  cases hd : Record.ofDictionary pid home d with
  | error e =>
    rw [hd] at h
    cases h
  | ok r' =>
    rw [hd] at h
    cases h
    refine (r'.restore_identity _).2.2.trans ?_
    unfold Record.ofDictionary at hd
    split at hd
    · cases hd
    · dsimp only at hd
      split at hd <;> (cases hd; rfl)

/-- A record that is entered takes its place, and no other one's. -/
theorem lodging_keepRecord (pid : String) (hv : s.view.Filed) {r : Record}
    (absent : s.view.cached.get? r.pid = none) (storage : Storage) :
    (({ s with storage } : Session).keepRecord r).2.lodging pid =
      ⟨fun name => storage.held name pid,
        if pid = r.pid then some r.home else (s.lodging pid).home?⟩ := by
  have hview : (({ s with storage } : Session).keepRecord r).2.view = s.view.adopt r :=
    view_keepRecord absent
  ext1
  · rfl
  · show ((({ s with storage } : Session).keepRecord r).2.view.cached.get? pid).map
      (fun h => ((({ s with storage } : Session).keepRecord r).2.record h).home) = _
    simp only [← record_view, hview, View.cached_adopt]
    split
    · exact congrArg (fun r => some r.home) (s.view.record_enroll_new r)
    · exact Option.map_congr fun h hc =>
        congrArg Record.home (s.view.record_enroll_lt (hv.held pid h hc).1 r)

theorem configuration_passage (hv : s.view.Filed) (pid' : String) :
    Passage pid made s (s.configuration pid').2 := by
  have hcourse := s.finding pid'
  generalize s.configuration pid' = result at hcourse ⊢
  cases hcourse with
  | cached | failed | missing => exact .refl s
  | @loaded home d r uncached first revived =>
    obtain ⟨rfl, -⟩ := revive_spec revived
    have hlodging := lodging_keepRecord pid hv uncached s.storage
    by_cases he : pid = r.pid
    · subst he
      refine ⟨rfl, rfl, .single ?_⟩
      have hshift : Lodging.Shift s.storage.chain r.pid made (s.lodging r.pid)
          { s.lodging r.pid with home? := some home } :=
        .load (home?_of_absent uncached) ((first?_lodging s r.pid).trans first)
      rw [if_pos rfl, revive_home revived] at hlodging
      exact hlodging ▸ hshift
    · rw [if_neg he] at hlodging
      exact .of_lodging rfl rfl hlodging

/-- What is asked for when a record is made: nothing is found under its pid. -/
theorem unnamed_of_absent {s₁ : Session} (absent : s.configuration pid = (.ok none, s₁)) :
    s₁ = s ∧ (s.lodging pid).home? = none ∧
      ∀ name d, (s.lodging pid).first? s.storage.chain = some name →
        (s.lodging pid).held name = some d → d.contains Properties.pidKey = false := by
  have hcourse := s.finding pid
  rw [absent] at hcourse
  cases hcourse with
  | missing uncached unnamed =>
    refine ⟨rfl, home?_of_absent uncached, ?_⟩
    rw [first?_lodging]
    exact unnamed

/-! ### Storing -/

theorem held_lodging_store (pid : String) {home id : String} {d : Properties} {storage : Storage}
    (hst : s.storage.store home id d = .ok storage) :
    (fun name => storage.held name pid) =
      if pid = id then ((s.lodging pid).put home (some d)).held else (s.lodging pid).held := by
  funext name
  rw [Storage.held_store hst]
  by_cases he : pid = id
  · simp only [he, and_true, if_true]
    rfl
  · simp only [he, and_false, if_false]
    rfl

/-- The dictionary of a cached record is stored at its home. -/
theorem passage_store {pid' : String} {h : Handle} (hc : s.view.cached.get? pid' = some h)
    {d : Properties} {storage : Storage}
    (hst : s.storage.store (s.record h).home pid' d = .ok storage)
    (hd : Properties.text? d Properties.pidKey = some pid') :
    Passage pid made s { s with storage } := by
  have hchain : storage.chain = s.storage.chain := by
    rw [Storage.store_eq hst]
    rfl
  have hheld := held_lodging_store pid hst
  by_cases he : pid = pid'
  · subst he
    rw [if_pos rfl] at hheld
    have hlodging : ({ s with storage } : Session).lodging pid =
        (s.lodging pid).put (s.record h).home (some d) :=
      Lodging.ext hheld rfl
    exact ⟨rfl, hchain, hlodging ▸ .single (.store (home?_of_cached hc) hd)⟩
  · rw [if_neg he] at hheld
    exact .of_lodging rfl hchain (Lodging.ext hheld rfl)

/-! ### Calls -/

/-- Whether a call that may make records answers with one of a pid. -/
def Yields (s : Session) (pid : String) : Action → Prop
  | .getOrCreate pid' location => ∃ h, (s.getOrCreate pid' location).1 = .ok h ∧
      ((s.getOrCreate pid' location).2.record h).pid = pid
  | .createMember f location names => ∃ h, (s.createMember f location names).1 = .ok (some h) ∧
      ((s.createMember f location names).2.record h).pid = pid
  | _ => False

/-- A record that is entered is found under its handle. -/
theorem record_keepRecord (s : Session) (r : Record) :
    (s.keepRecord r).2.record (s.keepRecord r).1 = r :=
  s.view.record_enroll_new r

theorem getOrCreate_passage (hv : s.view.Filed) (pid' : String) (location : Option String) :
    Passage pid (s.Yields pid (.getOrCreate pid' location)) s (s.getOrCreate pid' location).2 := by
  have hconf : Passage pid (s.Yields pid (.getOrCreate pid' location)) s (s.configuration pid').2 :=
    configuration_passage hv pid'
  have hcourse := s.creating pid' location
  dsimp only [Yields] at hconf ⊢
  generalize s.getOrCreate pid' location = result at hcourse hconf ⊢
  cases hcourse with
  | refused looked =>
    rcases looked with rfl | rfl
    · exact .refl _
    · exact hconf
  | found => exact hconf
  | @made s₁ home r storage absent primary new stored =>
    obtain ⟨rfl, huncached, hunnamed⟩ := unnamed_of_absent absent
    obtain ⟨rfl, -⟩ := restored_new new
    have hhome : r.home = home := by
      rw [new]
      exact (Record.restore_identity _ _).2.2
    have habsent : s₁.view.cached.get? r.pid = none := (configuration_absent absent).2
    have hlodging := lodging_keepRecord pid hv habsent storage
    have hchain : storage.chain = s₁.storage.chain := by
      rw [Storage.store_eq stored]
      rfl
    rw [held_lodging_store pid stored] at hlodging
    by_cases he : pid = r.pid
    · subst he
      rw [if_pos rfl, if_pos rfl, hhome] at hlodging
      refine ⟨rfl, hchain, ?_⟩
      rw [hlodging]
      have hpid := congrArg Record.pid (record_keepRecord { s₁ with storage } r)
      exact .tail (.single (.make ⟨_, rfl, hpid⟩ huncached hunnamed
        (Storage.primary_eq_ok_iff.mp primary))) (.store rfl r.pid_persisted)
    · rw [if_neg he, if_neg he] at hlodging
      exact .of_lodging rfl hchain hlodging

theorem minting_passage (hv : s.view.Filed) {f : String} {location : Option String}
    {names : List String} {result : Except AdminError (Option Handle) × Session}
    (hcourse : Minting f location s names result) :
    Passage pid (∃ h, result.1 = .ok (some h) ∧ (result.2.record h).pid = pid) s result.2 := by
  induction hcourse with
  | exhausted => exact .refl _
  | refused => exact configuration_passage hv _
  | @taken s pid' rest result next ih =>
    exact (configuration_passage hv pid').trans (ih ((s.configuration_strokes .all pid').filed hv))
  | @made s s₁ pid' home rest r absent primary new =>
    obtain ⟨rfl, huncached, hunnamed⟩ := unnamed_of_absent absent
    obtain rfl : r.pid = pid' := by rw [new]
    have hhome : r.home = home := by rw [new]
    have habsent : s₁.view.cached.get? r.pid = none := (configuration_absent absent).2
    have hlodging := lodging_keepRecord pid hv habsent s₁.storage
    by_cases he : pid = r.pid
    · subst he
      rw [if_pos rfl, hhome] at hlodging
      have hpid := congrArg Record.pid (s₁.record_keepRecord r)
      exact ⟨rfl, rfl, hlodging ▸ .single (.make ⟨_, rfl, hpid⟩ huncached hunnamed
        (Storage.primary_eq_ok_iff.mp primary))⟩
    · rw [if_neg he] at hlodging
      exact .of_lodging rfl rfl hlodging

theorem createMember_passage (hfree : ¬Storage.Reserved s.bindings.id pid) (hv : s.view.Filed)
    (f : String) (location : Option String) (names : List String) :
    Passage pid (s.Yields pid (.createMember f location names)) s
      (s.createMember f location names).2 := by
  have hfactory : Passage pid (s.Yields pid (.createMember f location names)) s (s.factory f).2 :=
    (s.factory_unmoved f).passage hfree
  have hcourse := s.recruiting f location names
  dsimp only [Yields] at hfactory ⊢
  generalize s.createMember f location names = result at hcourse hfactory ⊢
  cases hcourse with
  | refused looked =>
    rcases looked with rfl | rfl
    · exact .refl _
    · exact hfactory
  | minted hcourse =>
    exact hfactory.trans (minting_passage ((s.factory_strokes .all f).1.filed hv) hcourse)

theorem require_passage (hv : s.view.Filed) (pid' : String) :
    Passage pid made s (s.require pid').2 := by
  rw [(s.require_spec pid').1]
  exact configuration_passage hv pid'

/-- The record that an update found is cached when it has joined its factory. -/
theorem joined_cached (hv : s.view.Filed) {pid' : String} {h : Handle} {s₁ s₂ : Session}
    (required : s.require pid' = (.ok h, s₁)) (joined : s₁.join h = (.ok (), s₂)) :
    s₂.view.cached.get? pid' = some h ∧ s₂.view.Filed := by
  obtain ⟨hrequire, hcached⟩ := s.require_strokes .all pid'
  rw [required] at hrequire hcached
  have hv₁ := hrequire.filed hv
  obtain ⟨hjoin, -⟩ := (closed_of_filed hv₁).join h
  rw [joined] at hjoin
  exact ⟨hjoin.extends.cached pid' h (hcached h rfl), hjoin.closed.filed⟩

theorem update_passage (hfree : ¬Storage.Reserved s.bindings.id pid) (hv : s.view.Filed)
    (pid' : String) (p : Properties) : Passage pid made s (s.update pid' p).2 := by
  have hrequire : Passage pid made s (s.require pid').2 := require_passage hv pid'
  have hcourse := s.updating pid' p
  generalize s.update pid' p = result at hcourse ⊢
  cases hcourse with
  | refused looked =>
    rcases looked with rfl | rfl
    · exact .refl _
    · exact hrequire
  | @unjoined h s₁ s₂ e required unjoined =>
    rw [required] at hrequire
    have hjoin : Passage pid made s₁ (s₁.join h).2 :=
      (s₁.join_unmoved h).passage (hrequire.id.symm ▸ hfree)
    rw [unjoined] at hjoin
    exact hrequire.trans hjoin
  | @unstored h s₁ s₂ e required joined =>
    rw [required] at hrequire
    have hjoin : Passage pid made s₁ (s₁.join h).2 :=
      (s₁.join_unmoved h).passage (hrequire.id.symm ▸ hfree)
    rw [joined] at hjoin
    exact hrequire.trans hjoin
  | @updated h s₁ s₂ storage required joined stored =>
    obtain ⟨hc, hv₂⟩ := joined_cached hv required joined
    rw [required] at hrequire
    have hjoin : Passage pid made s₁ (s₁.join h).2 :=
      (s₁.join_unmoved h).passage (hrequire.id.symm ▸ hfree)
    rw [joined] at hjoin
    have hbefore := hrequire.trans hjoin
    rw [← Record.persisted_commit] at stored
    have hpid : ((s₂.record h).commit p).pid = pid' := (hv₂.held pid' h hc).2.1
    have hstore : Passage pid made s₂ { s₂ with storage } :=
      passage_store hc stored (hpid ▸ Record.pid_persisted)
    have hfree₂ : ¬Storage.Reserved s₂.bindings.id pid := hbefore.id.symm ▸ hfree
    exact (hbefore.trans hstore).trans ((commit_unmoved _ h p).passage hfree₂)

/-- A record that is deleted leaves its place, and no other one's. -/
theorem lodging_discard (hfree : ¬Storage.Reserved s.bindings.id pid) (hv : s.view.Filed)
    {pid' : String} {h : Handle} (hc : s.view.cached.get? pid' = some h) {storage : Storage}
    (hst : s.storage.delete (s.record h).home pid' = .ok storage) :
    (({ s with storage } : Session).discard h pid').lodging pid =
      if pid = pid' then { (s.lodging pid).put (s.record h).home none with home? := none }
      else s.lodging pid := by
  have hpid : (s.view.record h).pid = pid' := (hv.held pid' h hc).2.1
  obtain ⟨waiting, hview⟩ : ∃ waiting, (({ s with storage } : Session).discard h pid').view =
      { s.view.change h fun r => { r with deleted := true } with
        cached := s.view.cached.erase pid', waiting } := by
    have hdiscard := view_discard (s := { s with storage }) hpid
    rw [View.enqueue_eq] at hdiscard
    exact ⟨_, hdiscard.trans (by rw [← hpid]; rfl)⟩
  have hcached : (({ s with storage } : Session).discard h pid').view.cached =
      s.view.cached.erase pid' := by rw [hview]
  have hhome : ∀ i, ((({ s with storage } : Session).discard h pid').record i).home =
      (s.record i).home := by
    intro i
    rw [← record_view, hview]
    exact s.view.record_change_of_eq (q := Record.home)
      (f := fun r => { r with deleted := true }) (fun _ => rfl) h i
  have hheld : ∀ name, (({ s with storage } : Session).discard h pid').storage.held name pid =
      if name = (s.record h).home ∧ pid = pid' then none else s.storage.held name pid := fun name =>
    ((discard_sameStored { s with storage } h pid').storage.others name pid hfree).trans
      (Storage.held_delete hst name pid)
  ext1
  · funext name
    refine (hheld name).trans ?_
    by_cases he : pid = pid'
    · simp only [he, and_true, if_true]
      rfl
    · simp only [he, and_false, if_false]
      rfl
  · show ((({ s with storage } : Session).discard h pid').view.cached.get? pid).map _ = _
    rw [hcached]
    simp only [hhome]
    split
    · next he => rw [he, Table.get?_erase_self, Option.map_none]
    · next hne =>
      rw [Table.get?_erase_of_ne _ hne]
      rfl

theorem chain_discard {home pid' : String} {storage : Storage}
    (hst : s.storage.delete home pid' = .ok storage) (h : Handle) :
    (({ s with storage } : Session).discard h pid').storage.chain = s.storage.chain := by
  rw [(discard_sameStored { s with storage } h pid').gainsNoConfiguration.chain]
  show storage.chain = _
  rw [Storage.delete_eq hst]
  rfl

theorem delete_passage (hfree : ¬Storage.Reserved s.bindings.id pid) (hv : s.view.Filed)
    (pid' : String) : Passage pid made s (s.delete pid').2 := by
  have hrequire : Passage pid made s (s.require pid').2 := require_passage hv pid'
  obtain ⟨hstrokes, hcached⟩ := s.require_strokes .all pid'
  have hcourse := s.deleting pid'
  generalize s.delete pid' = result at hcourse ⊢
  cases hcourse with
  | refused looked =>
    rcases looked with rfl | rfl
    · exact .refl _
    · exact hrequire
  | @deleted h s₁ storage running required stored =>
    rw [required] at hrequire hstrokes hcached
    have hc : s₁.view.cached.get? pid' = some h := hcached h rfl
    have hfree₁ : ¬Storage.Reserved s₁.bindings.id pid := hrequire.id.symm ▸ hfree
    have hlodging := lodging_discard hfree₁ (hstrokes.filed hv) hc stored
    have hid := (discard_sameStored { s₁ with storage } h pid').id
    have hchain := chain_discard stored h
    refine hrequire.trans ?_
    by_cases he : pid = pid'
    · subst he
      rw [if_pos rfl] at hlodging
      exact ⟨hid, hchain, hlodging ▸ .single (.remove (home?_of_cached hc))⟩
    · rw [if_neg he] at hlodging
      exact .of_lodging hid hchain hlodging

theorem setLocation_passage (hfree : ¬Storage.Reserved s.bindings.id pid) (hv : s.view.Filed)
    (pid' : String) (location : Option String) :
    Passage pid made s (s.setLocation pid' location).2 := by
  have hrequire : Passage pid made s (s.require pid').2 := require_passage hv pid'
  obtain ⟨hstrokes, hcached⟩ := s.require_strokes .all pid'
  have hcourse := s.settling pid' location
  generalize s.setLocation pid' location = result at hcourse ⊢
  cases hcourse with
  | refused looked =>
    rcases looked with rfl | rfl
    · exact .refl _
    · exact hrequire
  | @settled h s₁ storage required stored =>
    rw [required] at hrequire hstrokes hcached
    have hc : s₁.view.cached.get? pid' = some h := hcached h rfl
    have hfree₁ : ¬Storage.Reserved s₁.bindings.id pid := hrequire.id.symm ▸ hfree
    have hstored : Passage pid made s₁ { s₁ with storage } := by
      unfold storeLocation at stored
      dsimp only at stored
      split at stored
      · cases stored
        exact .refl _
      · have hpid : ((s₁.record h).relocate location).pid = pid' :=
          ((hstrokes.filed hv).held pid' h hc).2.1
        exact passage_store hc stored
          (hpid ▸ Record.pid_persisted (r := (s₁.record h).relocate location))
    exact (hrequire.trans hstored).trans ((resettle_unmoved _ h pid' location).passage hfree₁)

/-! ### Consumers that are registered -/

theorem muster_passage (hv : s.view.Filed) (f : String) (roll : MusterRoll) (pid' : String) :
    Passage pid made s (s.muster f roll pid').2 := by
  have hconf : Passage pid made s (s.configuration pid').2 := configuration_passage hv pid'
  unfold muster
  split
  · next he => rw [he] at hconf; exact hconf
  · next he =>
    rw [he] at hconf
    dsimp only
    split
    · split <;> exact hconf
    · exact hconf
  · next he => rw [he] at hconf; exact hconf

theorem musterAll_passage (hv : s.view.Filed) (f : String) (pids : List String)
    (roll : MusterRoll) : Passage pid made s (musterAll f pids roll s).2 := by
  induction pids generalizing s roll with
  | nil => exact .refl s
  | cons pid' rest ih =>
    exact (muster_passage hv f roll pid').trans
      (ih ((muster_strokes .all hv f roll pid').strokes.filed hv) _)

theorem attachTo_passage (hfree : ¬Storage.Reserved s.bindings.id pid) (hv : s.view.Filed)
    (c : Consumer) (identity : String) : Passage pid made s (s.attachTo c identity) := by
  unfold attachTo
  split
  · have hconf : Passage pid made s (s.configuration identity).2 :=
      configuration_passage hv identity
    exact hconf.trans ((schedule_unmoved _ _).passage (hconf.id.symm ▸ hfree))
  · have hfactory : Passage pid made s (s.factory identity).2 :=
      (s.factory_unmoved identity).passage hfree
    have hv₁ := (s.factory_strokes .all identity).1.filed hv
    unfold attachMembers
    split
    · next he =>
      rw [he] at hfactory
      exact hfactory
    · next roster s₁ he =>
      rw [he] at hfactory hv₁
      have hcall := hfactory.trans
        (musterAll_passage hv₁ identity roster.members { roster := roster })
      dsimp only
      generalize musterAll identity roster.members { roster := roster } s₁ = result at hcall ⊢
      obtain ⟨roll, s₂⟩ := result
      have hpruned : Passage pid made s (s₂.prune roster roll.roster) :=
        hcall.trans ((s₂.prune_unmoved roster roll.roster).passage (hcall.id.symm ▸ hfree))
      exact hpruned.trans ((schedule_unmoved _ _).passage (hpruned.id.symm ▸ hfree))

theorem attachAll_passage (hfree : ¬Storage.Reserved s.bindings.id pid) (hv : s.view.Filed)
    (c : Consumer) (identities : List String) :
    Passage pid made s (identities.foldl (fun s identity => s.attachTo c identity) s) := by
  induction identities generalizing s with
  | nil => exact .refl s
  | cons identity rest ih =>
    have hone : Passage pid made s (s.attachTo c identity) := attachTo_passage hfree hv c identity
    have hv₁ : (s.attachTo c identity).view.Filed := by
      have hwide : Scope.all.Wide := ⟨fun _ => trivial, fun _ => trivial⟩
      unfold attachTo
      split
      · exact (attachSingle_strokes hv hwide c identity).filed hv
      · exact (attachMembers_strokes hv hwide c identity).filed hv
    exact hone.trans (ih (hone.id.symm ▸ hfree) hv₁)

/-! ### Steps and runs -/

/-- **Steps.**  Whatever happens to a session comes down to shifts of the place of each pid. -/
theorem step_passage (hfree : ¬Storage.Reserved s.bindings.id pid) (hv : s.view.Filed) {a : Action}
    (hspares : a.SparesStorage) : Passage pid (s.Yields pid a) s (s.step a).2 := by
  rcases a.kinds with ha | ⟨c, rfl⟩ | rfl | ⟨hl, hs⟩
  · cases a with
    | getOrCreate pid' location => exact getOrCreate_passage hv pid' location
    | createMember f location names => exact createMember_passage hfree hv f location names
    | list filter => exact .refl s
    | update pid' p => exact update_passage hfree hv pid' p
    | delete pid' => exact delete_passage hfree hv pid'
    | setLocation pid' location => exact setLocation_passage hfree hv pid' location
    | getExisting pid' =>
      show Passage pid _ s (s.getExisting pid').2
      rcases s.getExisting_looks pid' with he | he <;> rw [he]
      · exact .refl s
      · exact configuration_passage hv pid'
    | getLocation pid' =>
      show Passage pid _ s (s.getLocation pid').2
      rcases s.getLocation_looks pid' with he | he <;> rw [he]
      · exact .refl s
      · exact configuration_passage hv pid'
    | members f =>
      show Passage pid _ s (s.members f).2
      rcases s.members_looks f with he | he <;> rw [he]
      · exact .refl s
      · exact (s.factory_unmoved f).passage hfree
    | _ => cases ha
  · show Passage pid _ s (s.consumerRegistered c)
    unfold consumerRegistered
    split
    · exact attachAll_passage hfree hv c c.service.pids
    · exact .refl s
  · show Passage pid _ s s.shutdown
    have hsameStored := s.shutdown_sameStored
    rcases s.shutdown_retired with he | he
    · rw [he]
      exact .refl s
    · -- the cache is emptied, and the storage keeps what it has
      have hlodging : s.shutdown.lodging pid = { s.lodging pid with home? := none } := by
        ext1
        · exact funext fun name => hsameStored.storage.others name pid hfree
        · exact home?_of_absent (by rw [he.empty, Table.get?_empty])
      exact ⟨hsameStored.id, hsameStored.gainsNoConfiguration.chain, hlodging ▸ .single .forget⟩
  · have hunmoved := Unmoved.of_alike (step_sameStored hl hs hspares) ((step_deal hv a).alike hl hs)
    exact hunmoved.passage hfree

/-- Whether a call that may make records answers with one of a pid, along a run. -/
def YieldsAlong (pid : String) (s : Session) : List Action → Prop
  | [] => False
  | a :: rest => s.Yields pid a ∨ (s.step a).2.YieldsAlong pid rest

/-- **Runs.** -/
theorem run_passage (hfree : ¬Storage.Reserved s.bindings.id pid) (hv : s.view.Filed)
    {actions : List Action} (hspares : ∀ a ∈ actions, a.SparesStorage) :
    Passage pid (s.YieldsAlong pid actions) s (s.run actions) := by
  induction actions generalizing s with
  | nil => exact .refl s
  | cons a rest ih =>
    have hone := step_passage hfree hv (hspares a List.mem_cons_self)
    have hrest := ih (hone.id.symm ▸ hfree) ((step_deal hv a).filed hv)
      fun b hb => hspares b (List.mem_cons_of_mem a hb)
    exact (hone.mono Or.inl).trans (hrest.mono Or.inr)

end Session
end Provisioning
