import Mathlib.Logic.Relation
import Provisioning.Proofs.Stock

/-! # Finding configurations and factories

Nearly every call starts by looking things up, and a look-up may cache what it finds.  Seen
from the deliveries, all of it is one of two things: a record that was never served is added
and cached, or a roster is filed.  `Lookup` lists the two; every call that only looks things
up is a sequence of them (`OnlyLooksUp`).
-/
namespace Provisioning

open Relation (ReflTransGen)

namespace Roster

variable (r : Roster)

theorem contains_add {pid pid' : String} :
    (r.add pid).contains pid' = true ↔ pid' = pid ∨ r.contains pid' = true := by
  unfold add
  split
  · next hc =>
    constructor
    · exact Or.inr
    · rintro (rfl | h)
      · exact hc
      · exact h
  · simp [contains, Ranked.mem_insertBefore]

theorem contains_remove {pid pid' : String} :
    (r.remove pid).contains pid' = true ↔ r.contains pid' = true ∧ pid' ≠ pid := by
  simp [contains, remove]

theorem factoryPid_add (pid : String) : (r.add pid).factoryPid = r.factoryPid := by
  unfold add
  split <;> rfl

theorem nodup_add {r : Roster} (h : r.members.Nodup) (pid : String) :
    (r.add pid).members.Nodup := by
  unfold add
  split
  · exact h
  · next hc =>
    refine (Ranked.insertBefore_perm _ pid r.members).nodup_iff.mpr ?_
    exact List.nodup_cons.mpr ⟨by simpa [contains] using hc, h⟩

theorem nodup_remove {r : Roster} (h : r.members.Nodup) (pid : String) :
    (r.remove pid).members.Nodup :=
  h.filter _

theorem ofList_spec (factoryPid home : String) (pids : List String) :
    (ofList factoryPid home pids).factoryPid = factoryPid ∧
      (ofList factoryPid home pids).members.Nodup := by
  have aux : ∀ r : Roster, r.factoryPid = factoryPid → r.members.Nodup →
      (pids.foldl add r).factoryPid = factoryPid ∧ (pids.foldl add r).members.Nodup := by
    induction pids with
    | nil => exact fun _ hf hn => ⟨hf, hn⟩
    | cons pid rest ih =>
      intro r hf hn
      exact ih (r.add pid) ((r.factoryPid_add pid).trans hf) (nodup_add hn pid)
  exact aux _ rfl List.nodup_nil

/-- A roster that is loaded lists nobody twice, whatever was stored. -/
theorem load_spec {factoryPid home : String} {s : Storage} {r : Roster}
    (h : load factoryPid home s = .ok r) : r.factoryPid = factoryPid ∧ r.members.Nodup := by
  unfold load at h
  cases hd : s.load home (idOf factoryPid) with
  | error e =>
    rw [hd] at h
    cases h
  | ok d =>
    rw [hd] at h
    cases h
    exact ofList_spec _ _ _

end Roster

namespace Record

/-- A record that was never served. -/
structure Untouched (r : Record) : Prop where
  watermarks : r.watermarks = []
  delivered : r.delivered = 0
  undeleted : r.deleted = false

/-- A record that was never served and has nothing to be served. -/
structure Blank (r : Record) : Prop extends r.Untouched where
  properties : r.properties = none
  counter : r.counter = 0

theorem Untouched.watermark? {r : Record} (h : r.Untouched) (service : Nat) :
    r.watermark? service = none := by
  unfold Record.watermark?
  rw [h.watermarks]
  rfl

theorem Untouched.restore {r : Record} (h : r.Untouched) (location : Option String) :
    (r.restore location).Untouched := by
  unfold Record.restore
  split
  · exact ⟨h.watermarks, h.delivered, h.undeleted⟩
  · exact h

theorem Blank.restore {r : Record} (h : r.Blank) (location : Option String) :
    (r.restore location).Blank := by
  refine ⟨h.toUntouched.restore location, ?_, ?_⟩
  · unfold Record.restore
    split <;> exact h.properties
  · unfold Record.restore
    split <;> exact h.counter

/-- What a binding that is taken up leaves alone. -/
theorem restore_identity (r : Record) (location : Option String) :
    (r.restore location).pid = r.pid ∧ (r.restore location).factoryPid = r.factoryPid ∧
      (r.restore location).home = r.home := by
  unfold restore
  split <;> exact ⟨rfl, rfl, rfl⟩

theorem ofDictionary_spec {pid home : String} {d : Properties} {r : Record}
    (h : ofDictionary pid home d = .ok r) : r.pid = pid ∧ r.Untouched := by
  unfold ofDictionary at h
  split at h
  · cases h
  · dsimp only at h
    split at h <;> (cases h; exact ⟨rfl, rfl, rfl, rfl⟩)

end Record

namespace View

/-! ### Filing rosters -/

/-- A roster is found, or loses members that may be struck off. -/
inductive Filing (strikes : String → String → Prop) : View → View → Prop
  | found {v : View} {r : Roster} (unknown : v.rosters.get? r.factoryPid = none)
    (distinct : r.members.Nodup) : Filing strikes v (v.file r)
  | revised {v : View} {f : String} {r r' : Roster} (known : v.rosters.get? f = some r)
    (named : r'.factoryPid = r.factoryPid) (distinct : r.members.Nodup → r'.members.Nodup)
    (kept : ∀ pid, r.contains pid = true → r'.contains pid = true ∨ strikes f pid) :
    Filing strikes v (v.file r')

namespace Filing

variable {v v' : View} {strikes : String → String → Prop}

/-- Nothing but the rosters is touched. -/
theorem exists_rosters (hf : Filing strikes v v') : ∃ rosters, v' = { v with rosters } := by
  cases hf with
  | found | revised => exact ⟨_, rfl⟩

theorem filed (hf : Filing strikes v v') (hv : v.Filed) : v'.Filed := by
  cases hf with
  | found _ hd => exact hv.file hd
  | revised known _ hd => exact hv.file (hd (hv.distinct _ _ known))

/-- Only what is struck off is no longer listed. -/
theorem lists (hf : Filing strikes v v') (hv : v.Filed) (f pid : String)
    (hl : v.lists f pid = true) : v'.lists f pid = true ∨ strikes f pid := by
  cases hf with
  | found unknown =>
    left
    rw [lists_file]
    split
    · next he =>
      subst he
      simp [View.lists, unknown] at hl
    · exact hl
  | @revised f₀ r r' known named _ kept =>
    have hname : r'.factoryPid = f₀ := named.trans (hv.titled f₀ r known)
    rw [lists_file, hname]
    split
    · next he =>
      subst he
      refine kept pid ?_
      simpa [View.lists, known] using hl
    · exact Or.inl hl

end Filing

/-! ### Looking up -/

/-- Adds a record and caches it. -/
def adopt (v : View) (r : Record) : View :=
  { v.enroll r with cached := v.cached.put r.pid v.records.length }

theorem cached_adopt (v : View) (r : Record) (pid : String) :
    (v.adopt r).cached.get? pid =
      if pid = r.pid then some v.records.length else v.cached.get? pid :=
  Table.get?_put v.cached r.pid pid v.records.length

/-- Whether a member of a factory is cached under a pid. -/
def HasMember (v : View) (factoryPid pid : String) : Prop :=
  ∃ h, v.cached.get? pid = some h ∧ (v.record h).factoryPid = some factoryPid

/-- What looking something up may do. -/
inductive Lookup (admits : Record → Prop) : View → View → Prop
  /-- A record is made or loaded. -/
  | adopt {v : View} {r : Record} (absent : v.cached.get? r.pid = none) (untouched : r.Untouched)
    (admitted : admits r) : Lookup admits v (v.adopt r)
  /-- A roster is found, gains members or loses pids that are no members. -/
  | file {v v' : View} (filing : Filing (fun f pid => ¬v.HasMember f pid) v v') :
    Lookup admits v v'

/-- A sequence of look-ups. -/
abbrev Lookups (admits : Record → Prop) : View → View → Prop := ReflTransGen (Lookup admits)

/-- What look-ups leave behind: more records, more of them cached, all else as it was. -/
structure Extends (admits : Record → Prop) (v v' : View) : Prop where
  directory : v'.directory = v.directory
  access : v'.access = v.access
  plugins : v'.plugins = v.plugins
  calls : v'.calls = v.calls
  waiting : v'.waiting = v.waiting
  accepting : v'.accepting = v.accepting
  records : ∃ more, v'.records = v.records ++ more ∧ ∀ r ∈ more, r.Untouched ∧ admits r
  cached : ∀ pid h, v.cached.get? pid = some h → v'.cached.get? pid = some h
  fresh : ∀ pid h, v'.cached.get? pid = some h →
    v.cached.get? pid = some h ∨ v.records.length ≤ h

variable {admits : Record → Prop} {v v' v'' : View}

namespace Extends

theorem refl (v : View) : Extends admits v v :=
  ⟨rfl, rfl, rfl, rfl, rfl, rfl, ⟨[], (List.append_nil _).symm, by simp⟩, fun _ _ h => h,
    fun _ _ h => Or.inl h⟩

theorem length_le (h : Extends admits v v') : v.records.length ≤ v'.records.length := by
  obtain ⟨more, hm, -⟩ := h.records
  rw [hm, List.length_append]
  exact Nat.le_add_right _ _

theorem trans (h : Extends admits v v') (h' : Extends admits v' v'') : Extends admits v v'' where
  directory := h'.directory.trans h.directory
  access := h'.access.trans h.access
  plugins := h'.plugins.trans h.plugins
  calls := h'.calls.trans h.calls
  waiting := h'.waiting.trans h.waiting
  accepting := h'.accepting.trans h.accepting
  records := by
    obtain ⟨more, hm, ha⟩ := h.records
    obtain ⟨more', hm', ha'⟩ := h'.records
    refine ⟨more ++ more', by rw [hm', hm, List.append_assoc], fun r hr => ?_⟩
    rcases List.mem_append.mp hr with hr | hr
    · exact ha r hr
    · exact ha' r hr
  cached := fun pid i hi => h'.cached pid i (h.cached pid i hi)
  fresh := by
    intro pid i hi
    rcases h'.fresh pid i hi with hi | hi
    · exact h.fresh pid i hi
    · exact Or.inr (Nat.le_trans h.length_le hi)

theorem record_eq (h : Extends admits v v') {i : Handle} (hi : i < v.records.length) :
    v'.record i = v.record i := by
  obtain ⟨more, hm, -⟩ := h.records
  unfold record
  rw [hm, List.getElem?_append_left hi]

theorem record_new (h : Extends admits v v') {i : Handle} (hi : v.records.length ≤ i)
    (hi' : i < v'.records.length) : (v'.record i).Untouched ∧ admits (v'.record i) := by
  obtain ⟨more, hm, ha⟩ := h.records
  have hr : v'.records[i]? = some v'.records[i] := List.getElem?_eq_getElem hi'
  unfold record
  rw [hr, Option.getD_some]
  refine ha _ ?_
  have hmem : v'.records[i]? = more[i - v.records.length]? := by
    rw [hm, List.getElem?_append_right hi]
  rw [hr] at hmem
  exact List.mem_of_getElem? hmem.symm

/-- Nobody took anything of a record that was added. -/
theorem watermark?_new (h : Extends admits v v') {i : Handle} (hi : v.records.length ≤ i)
    (service : Nat) : (v'.record i).watermark? service = none := by
  rcases Nat.lt_or_ge i v'.records.length with hlt | hge
  · exact (h.record_new hi hlt).1.watermark? service
  · unfold record
    rw [List.getElem?_eq_none hge]
    rfl

end Extends

theorem Lookup.extends (hl : Lookup admits v v') : Extends admits v v' := by
  cases hl with
  | @adopt r absent untouched admitted =>
    refine ⟨rfl, rfl, rfl, rfl, rfl, rfl, ⟨[r], rfl, by simpa using ⟨untouched, admitted⟩⟩,
      ?_, ?_⟩
    · intro pid h hp
      rw [cached_adopt]
      split
      · next he =>
        subst he
        rw [absent] at hp
        cases hp
      · exact hp
    · intro pid h hp
      rw [cached_adopt] at hp
      split at hp
      · cases hp
        exact Or.inr (Nat.le_refl _)
      · exact Or.inl hp
  | file hf =>
    obtain ⟨rosters, rfl⟩ := hf.exists_rosters
    exact ⟨rfl, rfl, rfl, rfl, rfl, rfl, ⟨[], (List.append_nil _).symm, by simp⟩, fun _ _ h => h,
      fun _ _ h => Or.inl h⟩

theorem Lookups.extends (hl : Lookups admits v v') : Extends admits v v' := by
  induction hl with
  | refl => exact .refl v
  | tail _ hlast ih => exact ih.trans hlast.extends

theorem Filed.adopt (hv : v.Filed) {r : Record} (hr : r.deleted = false) : (v.adopt r).Filed := by
  refine ⟨?_, hv.titled, hv.distinct⟩
  intro pid h hp
  rw [cached_adopt] at hp
  have hlen : (v.adopt r).records.length = v.records.length + 1 := by
    simp [View.adopt, enroll]
  split at hp
  · next he =>
    cases hp
    have hrec : (v.adopt r).record v.records.length = r := v.record_enroll_new r
    rw [hrec, hlen]
    exact ⟨Nat.lt_succ_self _, he.symm, hr⟩
  · obtain ⟨hlt, hpid, hdel⟩ := hv.held pid h hp
    have hrec : (v.adopt r).record h = v.record h := v.record_enroll_lt hlt r
    rw [hrec, hlen]
    exact ⟨Nat.lt_succ_of_lt hlt, hpid, hdel⟩

theorem Lookups.filed (hl : Lookups admits v v') (hv : v.Filed) : v'.Filed := by
  induction hl with
  | refl => exact hv
  | tail _ hlast ih =>
    cases hlast with
    | adopt _ untouched _ => exact ih.adopt untouched.undeleted
    | file hf => exact hf.filed ih

end View

namespace Session

variable {admits : Record → Prop} {s s' s'' : Session}

/-- What makes look-ups admit no more than they should: what is known is filed, and either
everything is admitted, or there is nothing to load. -/
structure Closed (admits : Record → Prop) (s : Session) : Prop where
  filed : s.view.Filed
  source : (∀ r, admits r) ∨ ∃ name, s.Stocked name

/-- A part of a call that only looks things up. -/
structure OnlyLooksUp (admits : Record → Prop) (s s' : Session) : Prop where
  lookups : s.view.Lookups admits s'.view
  closed : s'.Closed admits

theorem Closed.onlyLooksUp (hs : s.Closed admits) : OnlyLooksUp admits s s := ⟨.refl, hs⟩

theorem OnlyLooksUp.trans (h : OnlyLooksUp admits s s') (h' : OnlyLooksUp admits s' s'') :
    OnlyLooksUp admits s s'' :=
  ⟨h.lookups.trans h'.lookups, h'.closed⟩

theorem OnlyLooksUp.extends (h : OnlyLooksUp admits s s') : s.view.Extends admits s'.view :=
  h.lookups.extends

/-- A record that is added under a pid that is not cached. -/
theorem view_keepRecord {r : Record} (h : s.view.cached.get? r.pid = none) :
    (s.keepRecord r).2.view = s.view.adopt r := by
  have hn : s.cache.record? r.pid = none := h
  unfold keepRecord Cache.adopt enroll
  simp only [hn]
  rfl

/-- A new record is entered, with the storage that holds it now. -/
theorem Stocked.enter {name : String} (hs : s.Stocked name) (hv : s.view.Filed) {r : Record}
    {storage : Storage} (absent : s.view.cached.get? r.pid = none) (home : r.home = name)
    (hl : storage.chain = s.storage.chain)
    (hst : ∀ pid, (storage.backend name).HasConfiguration pid →
      pid = r.pid ∨ (s.storage.backend name).HasConfiguration pid) :
    (({ s with storage } : Session).keepRecord r).2.Stocked name := by
  have hview : (({ s with storage } : Session).keepRecord r).2.view = s.view.adopt r :=
    view_keepRecord absent
  refine ⟨?_, ?_, ?_⟩
  · show ∃ rank, storage.chain = [⟨rank, name⟩]
    rw [hl]
    exact hs.chain
  · intro pid h hp
    rw [hview, View.cached_adopt] at hp
    rw [← record_view, hview]
    split at hp
    · cases hp
      exact (congrArg Record.home (s.view.record_enroll_new r)).trans home
    · exact (congrArg Record.home (s.view.record_enroll_lt (hv.held pid h hp).1 r)).trans
        (hs.homes pid h hp)
  · intro pid hp
    rw [hview, View.cached_adopt]
    split
    · simp
    · next hne => exact hs.kept pid ((hst pid hp).resolve_left hne)

/-- Work that changes neither the records nor the cache, and stores no configuration. -/
theorem Closed.of_gainsNoConfiguration (hs : s.Closed admits) (hf : s'.view.Filed)
    (ht : s.storage.GainsNoConfiguration s'.storage) (hc : s'.view.cached = s.view.cached)
    (hh : ∀ h, (s'.record h).home = (s.record h).home) : s'.Closed admits := by
  refine ⟨hf, hs.source.imp_right ?_⟩
  rintro ⟨name, hn⟩
  exact ⟨name, hn.of_gainsNoConfiguration ht hc hh⟩

/-! ### Configurations -/

/-- What looking up a configuration does and answers: it is cached afterwards exactly if it was
found, and no other pid is affected. -/
structure Found (admits : Record → Prop) (s s' : Session) (pid : String)
    (result : Except StorageError (Option Handle)) : Prop extends OnlyLooksUp admits s s' where
  storage : s'.storage = s.storage
  rosters : s'.view.rosters = s.view.rosters
  others : ∀ pid', pid' ≠ pid → s'.view.cached.get? pid' = s.view.cached.get? pid'
  ok : ∀ found, result = .ok found → s'.view.cached.get? pid = found
  error : ∀ e, result = .error e → s'.view.cached.get? pid = none

theorem revive_spec {pid home : String} {d : Properties} {r : Record}
    (h : s.revive pid home d = .ok r) : r.pid = pid ∧ r.Untouched := by
  unfold revive at h
  cases hd : Record.ofDictionary pid home d with
  | error e =>
    rw [hd] at h
    cases h
  | ok r' =>
    rw [hd] at h
    cases h
    obtain ⟨hp, hu⟩ := Record.ofDictionary_spec hd
    exact ⟨(r'.restore_identity _).1.trans hp, hu.restore _⟩

theorem Closed.configuration_found (hs : s.Closed admits) (pid : String) :
    Found admits s (s.configuration pid).2 pid (s.configuration pid).1 := by
  rcases hs.source with hall | ⟨name, hn⟩
  · -- a configuration that is loaded is admitted
    unfold configuration
    split
    · next h hc =>
      exact ⟨hs.onlyLooksUp, rfl, rfl, fun _ _ => rfl, fun _ hf => by cases hf; exact hc,
        fun _ he => by cases he⟩
    · next hc =>
      -- nothing is cached under the pid, and so it stays unless something is loaded
      have hnone : s.view.cached.get? pid = none := hc
      have habsent : ∀ result : Except StorageError (Option Handle),
          (∀ found, result = .ok found → found = none) → Found admits s s pid result :=
        fun result hr => ⟨hs.onlyLooksUp, rfl, rfl, fun _ _ => rfl,
          fun found hf => hnone.trans (hr found hf).symm, fun _ _ => hnone⟩
      split
      · exact habsent _ fun _ hf => by cases hf; rfl
      · split
        · exact habsent _ fun _ hf => by cases hf
        · split
          · exact habsent _ fun _ hf => by cases hf; rfl
          · split
            · exact habsent _ fun _ hf => by cases hf
            · next r hr =>
              obtain ⟨rfl, hu⟩ := revive_spec hr
              have hview := view_keepRecord hnone
              have hl : s.view.Lookup admits (s.keepRecord r).2.view := by
                rw [hview]
                exact .adopt hnone hu (hall r)
              have hcached : (s.keepRecord r).2.view.cached =
                  s.view.cached.put r.pid s.view.records.length := by
                rw [hview]
                rfl
              refine ⟨⟨.single hl, View.Lookups.filed (.single hl) hs.filed, Or.inl hall⟩, rfl, ?_,
                fun pid' hne => ?_, fun _ hf => ?_, fun _ he => by cases he⟩
              · dsimp only
                rw [hview]
                rfl
              · dsimp only
                rw [hcached]
                exact Table.get?_put_of_ne _ hne _
              · cases hf
                dsimp only
                rw [hcached, Table.get?_put_self]
                rfl
  · -- what is stored is cached, so that nothing is loaded
    obtain ⟨heq, hok⟩ := hn.configuration_eq pid
    rw [heq]
    refine ⟨hs.onlyLooksUp, rfl, rfl, fun _ _ => rfl, fun found hf => (hok found hf).symm,
      fun e he => ?_⟩
    cases hc : s.view.cached.get? pid with
    | none => rfl
    | some h =>
      have hrec : s.cache.record? pid = some h := hc
      unfold configuration at he
      simp only [hrec] at he
      cases he

/-! ### Rosters -/

/-- A roster that is looked up is kept, and that is all. -/
theorem factory_keeps (s : Session) (f : String) :
    (s.factory f).2 = s ∨ ∃ r, (s.factory f).2 = s.keepRoster r := by
  unfold factory
  split
  · exact Or.inl rfl
  · split <;> split
    · exact Or.inr ⟨_, rfl⟩
    · exact Or.inl rfl
    · exact Or.inr ⟨_, rfl⟩
    · exact Or.inl rfl

/-- The roster of a factory is cached once it was found. -/
theorem factory_spec (f : String) (strikes : String → String → Prop) :
    ReflTransGen (View.Filing strikes) s.view (s.factory f).2.view ∧
      (∀ r, (s.factory f).1 = .ok r → (s.factory f).2.view.rosters.get? f = some r) ∧
      ∀ e, (s.factory f).1 = .error e →
        (s.factory f).2 = s ∧ s.view.rosters.get? f = none := by
  have hkeep : ∀ r : Roster, s.view.rosters.get? f = none → r.factoryPid = f →
      r.members.Nodup →
      ReflTransGen (View.Filing strikes) s.view (s.keepRoster r).view ∧
        (s.keepRoster r).view.rosters.get? f = some r := by
    intro r hn hf hd
    subst hf
    exact ⟨.single (.found hn hd), Table.get?_put_self _ _ _⟩
  unfold factory
  split
  · next r hr => exact ⟨.refl, fun _ h => by cases h; exact hr, fun _ h => by cases h⟩
  · next hr =>
    have hnone : s.view.rosters.get? f = none := hr
    split
    · split
      · next r hl =>
        obtain ⟨hname, hdistinct⟩ := Roster.load_spec hl
        obtain ⟨hk, hg⟩ := hkeep r hnone hname hdistinct
        exact ⟨hk, fun _ h => by cases h; exact hg, fun _ h => by cases h⟩
      · exact ⟨.refl, (fun _ h => by cases h), fun _ _ => ⟨rfl, hnone⟩⟩
    · split
      · next home _ =>
        obtain ⟨hk, hg⟩ := hkeep { factoryPid := f, home } hnone rfl List.nodup_nil
        exact ⟨hk, fun _ h => by cases h; exact hg, fun _ h => by cases h⟩
      · exact ⟨.refl, (fun _ h => by cases h), fun _ _ => ⟨rfl, hnone⟩⟩

/-- Removing a pid from its factory touches the rosters, and strikes off no other. -/
theorem expel_filing (pid f : String) :
    ReflTransGen (View.Filing fun f' pid' => f' = f ∧ pid' = pid) s.view
      (s.expel pid f).view := by
  obtain ⟨hfil, hok, -⟩ := s.factory_spec f fun f' pid' => f' = f ∧ pid' = pid
  unfold expel
  split
  · next e s' he =>
    rw [he] at hfil
    exact hfil
  · next r s' he =>
    rw [he] at hfil hok
    have hknown := hok r rfl
    split
    · have hlast : View.Filing (fun f' pid' => f' = f ∧ pid' = pid) s'.view
          (s'.keepRoster (r.remove pid)).view := by
        refine .revised hknown rfl (fun hd => Roster.nodup_remove hd pid) fun pid' hc => ?_
        by_cases hp : pid' = pid
        · exact Or.inr ⟨rfl, hp⟩
        · exact Or.inl (r.contains_remove.mpr ⟨hc, hp⟩)
      dsimp only
      split
      · exact hfil.tail hlast
      · exact hfil.tail hlast
    · exact hfil

end Session
end Provisioning
