import Provisioning.Proofs.Steps

/-! # What a refused call leaves behind

A call that is refused is to leave everything as it was.  It may have looked things up before it
was refused, and what it found stays cached; `Session.Learns` says that this is all.

One call does more.  The first update of a member lists the member on the roster of its factory
and stores the roster before it stores the member.  When the roster can be stored and the member
cannot, the update is refused, the roster stays stored, and the factory has a member that was
never updated: `Session.Strays`.
-/
namespace Provisioning

namespace Action

/-- The calls that make a record or change one. -/
def isMutation : Action → Bool
  | .getOrCreate .. | .createMember .. | .update .. | .delete .. | .setLocation .. => true
  | _ => false

end Action

namespace Session

/-- The record that the storage holds for a pid. -/
def Stands (s : Session) (pid : String) (r : Record) : Prop :=
  ∃ home stored, s.storage.firstHaving pid = some home ∧ s.storage.load home pid = .ok stored ∧
    stored.contains Properties.pidKey = true ∧ s.revive pid home stored = .ok r

/-- The roster that the storage holds for a factory; where there is none, an empty one. -/
def Enlists (s : Session) (factoryPid : String) (r : Roster) : Prop :=
  (∃ home, s.storage.firstHaving (Roster.idOf factoryPid) = some home ∧
    Roster.load factoryPid home s.storage = .ok r) ∨
  s.storage.firstHaving (Roster.idOf factoryPid) = none ∧
    ∃ home, s.storage.primary = .ok home ∧ r = { factoryPid, home }

/-- All is as it was, but that some records and rosters have come from the storage into the
cache. -/
structure Learns (s s' : Session) : Prop where
  /-- The storage, the bindings, both lines of work and the world are the same. -/
  rest : s' = { s with records := s'.records, cache := s'.cache }
  records : s.records <+: s'.records
  kept : ∀ pid h, s.cache.record? pid = some h → s'.cache.record? pid = some h
  found : ∀ pid h, s.cache.record? pid = none → s'.cache.record? pid = some h →
    s.records.length ≤ h ∧ h < s'.records.length ∧ s.Stands pid (s'.record h)
  rosters : ∀ f r, s.cache.roster? f = some r → s'.cache.roster? f = some r
  enlisted : ∀ f r, s.cache.roster? f = none → s'.cache.roster? f = some r → s.Enlists f r

variable {s s' s'' : Session}

theorem Stands.of_eq {pid : String} {r : Record} (h : s'.Stands pid r)
    (hst : s'.storage = s.storage) (hb : s'.bindings = s.bindings) : s.Stands pid r := by
  obtain ⟨home, stored, hfirst, hload, hkey, hrev⟩ := h
  unfold revive at hrev
  rw [hst] at hfirst hload
  rw [hb] at hrev
  exact ⟨home, stored, hfirst, hload, hkey, hrev⟩

theorem Enlists.of_eq {f : String} {r : Roster} (h : s'.Enlists f r)
    (hst : s'.storage = s.storage) : s.Enlists f r := by
  unfold Enlists at h
  rw [hst] at h
  exact h

/-- The storage holds one roster for a factory. -/
theorem Enlists.unique {f : String} {r r' : Roster} (h : s.Enlists f r) (h' : s.Enlists f r') :
    r = r' := by
  rcases h with ⟨home, hf, hl⟩ | ⟨hf, home, hp, rfl⟩
  · rcases h' with ⟨home', hf', hl'⟩ | ⟨hf', -⟩
    · rw [hf] at hf'
      cases hf'
      rw [hl] at hl'
      exact Except.ok.inj hl'
    · rw [hf] at hf'
      cases hf'
  · rcases h' with ⟨home', hf', -⟩ | ⟨-, home', hp', rfl⟩
    · rw [hf] at hf'
      cases hf'
    · rw [hp] at hp'
      cases hp'
      rfl

namespace Learns

theorem refl (s : Session) : s.Learns s :=
  ⟨rfl, List.prefix_rfl, fun _ _ h => h, (fun _ _ hn h => by rw [hn] at h; cases h),
    fun _ _ h => h, fun _ _ hn h => by rw [hn] at h; cases h⟩

theorem storage (h : s.Learns s') : s'.storage = s.storage := by rw [h.rest]

theorem bindings (h : s.Learns s') : s'.bindings = s.bindings := by rw [h.rest]

theorem record_eq (h : s.Learns s') {i : Handle} (hi : i < s.records.length) :
    s'.record i = s.record i := by
  unfold Session.record World.record
  rw [List.prefix_iff_getElem?.mp h.records i hi, List.getElem?_eq_getElem hi]

theorem trans (h : s.Learns s') (h' : s'.Learns s'') : s.Learns s'' where
  rest := by
    rw [h'.rest, h.rest]
  records := h.records.trans h'.records
  kept := fun pid i hi => h'.kept pid i (h.kept pid i hi)
  found := by
    intro pid i hn hi
    cases hc : s'.cache.record? pid with
    | none =>
      obtain ⟨hle, hlt, hst⟩ := h'.found pid i hc hi
      exact ⟨Nat.le_trans h.records.length_le hle, hlt, hst.of_eq h.storage h.bindings⟩
    | some j =>
      -- what was found first is still there
      have hj := h'.kept pid j hc
      rw [hi] at hj
      cases hj
      obtain ⟨hle, hlt, hst⟩ := h.found pid i hn hc
      rw [h'.record_eq hlt]
      exact ⟨hle, Nat.lt_of_lt_of_le hlt h'.records.length_le, hst⟩
  rosters := fun f r hr => h'.rosters f r (h.rosters f r hr)
  enlisted := by
    intro f r hn hr
    cases hc : s'.cache.roster? f with
    | none => exact (h'.enlisted f r hc hr).of_eq h.storage
    | some r' =>
      have hr' := h'.rosters f r' hc
      rw [hr] at hr'
      cases hr'
      exact h.enlisted f r hn hc

/-- Looking a factory up answers what it answered before. -/
theorem factory_eq (h : s.Learns s') (f : String) : (s'.factory f).1 = (s.factory f).1 := by
  cases hc : s.cache.roster? f with
  | some r =>
    have hc' := h.rosters f r hc
    unfold factory
    simp only [hc, hc']
  | none =>
    cases hc' : s'.cache.roster? f with
    | none =>
      unfold factory
      simp only [hc, hc', h.storage]
      split <;> split <;> rfl
    | some r =>
      unfold factory
      rcases h.enlisted f r hc hc' with ⟨home, hf, hl⟩ | ⟨hf, home, hp, rfl⟩
      · simp only [hc, hc', hf, hl]
      · simp only [hc, hc', hf, hp]

/-- Every factory has the members that it had before. -/
theorem members_eq (h : s.Learns s') (f : String) : (s'.members f).1 = (s.members f).1 := by
  have hf := h.factory_eq f
  have hrun : s'.isRunning = s.isRunning := by
    rw [h.rest]
    rfl
  unfold members
  rw [hrun]
  split
  · rfl
  · cases hx : s.factory f with
    | mk result t =>
      cases hx' : s'.factory f with
      | mk result' t' =>
        rw [hx, hx'] at hf
        subst hf
        cases result' <;> rfl

end Learns

/-! ### Looking up -/

theorem learns_keepRecord {pid : String} {r : Record} (absent : s.cache.record? pid = none)
    (hp : r.pid = pid) (stands : s.Stands pid r) : s.Learns (s.keepRecord r).2 := by
  subst hp
  have hview := view_keepRecord absent
  have hcached : ∀ pid, (s.keepRecord r).2.cache.record? pid =
      if pid = r.pid then some s.records.length else s.cache.record? pid := by
    intro pid
    have h := s.view.cached_adopt r pid
    rw [← hview] at h
    exact h
  have hrosters : (s.keepRecord r).2.cache.rosters = s.cache.rosters :=
    congrArg View.rosters hview
  refine ⟨rfl, List.prefix_append _ _, fun pid h hc => ?_, fun pid h hn hc => ?_,
    fun f r' hr => ?_, fun f r' hn hr => ?_⟩
  · rw [hcached]
    split
    · next he =>
      rw [he, absent] at hc
      cases hc
    · exact hc
  · rw [hcached] at hc
    split at hc
    · next he =>
      subst he
      cases hc
      have hrec : (s.keepRecord r).2.record s.records.length = r := s.view.record_enroll_new r
      rw [hrec]
      exact ⟨Nat.le_refl _, by simp [keepRecord, enroll], stands⟩
    · rw [hn] at hc
      cases hc
  · rw [Cache.roster?, hrosters]
    exact hr
  · rw [Cache.roster?, hrosters] at hr
    rw [Cache.roster?, hr] at hn
    cases hn

theorem roster?_keepRoster (s : Session) (r : Roster) (f : String) :
    (s.keepRoster r).cache.roster? f =
      if f = r.factoryPid then some r else s.cache.roster? f :=
  Table.get?_put s.cache.rosters r.factoryPid f r

theorem learns_keepRoster {f : String} {r : Roster} (absent : s.cache.roster? f = none)
    (hf : r.factoryPid = f) (enlists : s.Enlists f r) : s.Learns (s.keepRoster r) := by
  subst hf
  refine ⟨rfl, List.prefix_rfl, fun _ _ h => h, fun pid h hn hc => ?_, fun f r' hr => ?_,
    fun f r' hn hr => ?_⟩
  · have hc' : s.cache.record? pid = some h := hc
    rw [hn] at hc'
    cases hc'
  · rw [roster?_keepRoster]
    split
    · next he =>
      rw [he, absent] at hr
      cases hr
    · exact hr
  · rw [roster?_keepRoster] at hr
    split at hr
    · next he =>
      cases hr
      exact he ▸ enlists
    · rw [hn] at hr
      cases hr

theorem learns_configuration (s : Session) (pid : String) : s.Learns (s.configuration pid).2 := by
  unfold configuration
  split
  · exact .refl s
  · next hc =>
    split
    · exact .refl s
    · next home hf =>
      split
      · exact .refl s
      · next stored hl =>
        split
        · exact .refl s
        · next hk =>
          split
          · exact .refl s
          · next r hr =>
            exact learns_keepRecord hc (revive_spec hr).1
              ⟨home, stored, hf, hl, by simpa using hk, hr⟩

theorem learns_factory (s : Session) (f : String) : s.Learns (s.factory f).2 := by
  unfold factory
  split
  · exact .refl s
  · next hc =>
    split
    · next home hf =>
      split
      · next r hl =>
        exact learns_keepRoster hc (Roster.load_spec hl).1 (Or.inl ⟨home, hf, hl⟩)
      · exact .refl s
    · next hf =>
      split
      · next home hp => exact learns_keepRoster hc rfl (Or.inr ⟨hf, home, hp, rfl⟩)
      · exact .refl s

theorem learns_require (s : Session) (pid : String) : s.Learns (s.require pid).2 := by
  rw [(s.require_spec pid).1]
  exact s.learns_configuration pid

/-! ### Calls that are refused -/

/-- The roster of a factory was stored with a new member on it, and the dictionary of the member
could not be. -/
def Strays (s : Session) (pid : String) (s' : Session) : Prop :=
  ∃ s₁ h f roster storage, s.Learns s₁ ∧ s₁.cache.record? pid = some h ∧
    (s₁.record h).factoryPid = some f ∧ s₁.cache.roster? f = some roster ∧
    roster.factoryPid = f ∧ roster.contains pid = false ∧
    (roster.add pid).store s₁.storage = .ok storage ∧
    (storage.backend (s₁.record h).home).writable pid = false ∧
    s' = ({ s₁ with storage } : Session).keepRoster (roster.add pid)

/-- A store that fails is one that the backend does not accept. -/
theorem not_writable_of_store {st : Storage} {name id : String} {d : Properties}
    {e : StorageError} (h : st.store name id d = .error e) :
    (st.backend name).writable id = false := by
  unfold Storage.store Backend.store at h
  split at h
  · cases h
  · next hw => simpa using hw

theorem Minting.learns {f : String} {location : Option String} {names : List String}
    {result : Except AdminError (Option Handle) × Session}
    (hcourse : Minting f location s names result) :
    s.Learns result.2 ∨ ∃ h, result.1 = .ok h := by
  induction hcourse with
  | exhausted => exact Or.inr ⟨_, rfl⟩
  | @refused s pid => exact Or.inl (s.learns_configuration pid)
  | @taken s pid rest result next ih =>
    -- what was loaded for a name that is taken stays cached
    exact ih.imp_left (s.learns_configuration pid).trans
  | made => exact Or.inr ⟨_, rfl⟩

variable (s)

/-- A call that ends with what was looked up leaves the rest as it was. -/
theorem learns_of_looked {s₁ : Session} (hl : s.Learns s₁) (looked : s' = s ∨ s' = s₁) :
    s.Learns s' := by
  rcases looked with rfl | rfl
  · exact .refl s'
  · exact hl

theorem getOrCreate_learns (pid : String) (location : Option String) :
    s.Learns (s.getOrCreate pid location).2 ∨ ∃ h, (s.getOrCreate pid location).1 = .ok h := by
  have hcourse := s.creating pid location
  generalize s.getOrCreate pid location = result at hcourse ⊢
  cases hcourse with
  | refused looked => exact Or.inl (s.learns_of_looked (s.learns_configuration pid) looked)
  | found | made => exact Or.inr ⟨_, rfl⟩

theorem createMember_learns (f : String) (location : Option String) (names : List String) :
    s.Learns (s.createMember f location names).2 ∨
      ∃ h, (s.createMember f location names).1 = .ok h := by
  have hcourse := s.recruiting f location names
  generalize s.createMember f location names = result at hcourse ⊢
  cases hcourse with
  | refused looked => exact Or.inl (s.learns_of_looked (s.learns_factory f) looked)
  | minted hcourse => exact hcourse.learns.imp_left (s.learns_factory f).trans

theorem delete_learns (pid : String) :
    s.Learns (s.delete pid).2 ∨ ∃ u, (s.delete pid).1 = .ok u := by
  have hcourse := s.deleting pid
  generalize s.delete pid = result at hcourse ⊢
  cases hcourse with
  | refused looked => exact Or.inl (s.learns_of_looked (s.learns_require pid) looked)
  | deleted => exact Or.inr ⟨_, rfl⟩

theorem setLocation_learns (pid : String) (location : Option String) :
    s.Learns (s.setLocation pid location).2 ∨ ∃ u, (s.setLocation pid location).1 = .ok u := by
  have hcourse := s.settling pid location
  generalize s.setLocation pid location = result at hcourse ⊢
  cases hcourse with
  | refused looked => exact Or.inl (s.learns_of_looked (s.learns_require pid) looked)
  | settled => exact Or.inr ⟨_, rfl⟩

variable {s}

/-- Whoever joins a factory is on the stored roster afterwards, and nothing else is stored. -/
theorem join_learns (hf : s.view.Filed) (h : Handle) :
    s.Learns (s.join h).2 ∨ (s.join h).1 = .ok () ∧ ∃ s₁ f roster storage, s.Learns s₁ ∧
      (s.record h).factoryPid = some f ∧ s₁.cache.roster? f = some roster ∧
      roster.factoryPid = f ∧ roster.contains (s.record h).pid = false ∧
      (roster.add (s.record h).pid).store s₁.storage = .ok storage ∧
      (s.join h).2 = ({ s₁ with storage } : Session).keepRoster (roster.add (s.record h).pid) := by
  have hcourse := s.joining h
  generalize s.join h = result at hcourse ⊢
  cases hcourse with
  | single => exact Or.inl (.refl s)
  | @refused f => exact Or.inl (s.learns_factory f)
  | @listed f roster s₁ factory found =>
    have hl := s.learns_factory f
    rw [found] at hl
    exact Or.inl hl
  | @joined f roster s₁ storage factory found unlisted stored =>
    have hl := s.learns_factory f
    obtain ⟨-, hknown, hname⟩ := (closed_of_filed hf).factory_ok found
    rw [found] at hl
    exact Or.inr ⟨rfl, s₁, f, roster, storage, hl, factory, hknown, hname, unlisted, stored, rfl⟩

theorem update_learns (hf : s.view.Filed) (pid : String) (p : Properties) :
    s.Learns (s.update pid p).2 ∨ s.Strays pid (s.update pid p).2 ∨
      ∃ g, (s.update pid p).1 = .ok g := by
  have hl := s.learns_require pid
  obtain ⟨hlooks, hcached⟩ := (closed_of_filed hf).require pid
  have hcourse := s.updating pid p
  generalize s.update pid p = result at hcourse ⊢
  cases hcourse with
  | refused looked => exact Or.inl (s.learns_of_looked hl looked)
  | @unjoined h s₁ s₂ e required unjoined =>
    rw [required] at hl hlooks
    have hjoin := join_learns hlooks.closed.filed h
    rw [unjoined] at hjoin
    rcases hjoin with hjoin | ⟨hok, -⟩
    · exact Or.inl (hl.trans hjoin)
    · cases hok
  | @unstored h s₁ s₂ e required joined unstored =>
    rw [required] at hl hlooks hcached
    obtain ⟨hlt, hpid, -⟩ := hlooks.closed.filed.held pid h (hcached h rfl)
    have hpid' : (s₁.record h).pid = pid := hpid
    have hjoin := join_learns hlooks.closed.filed h
    rw [hpid', joined] at hjoin
    rcases hjoin with hjoin |
      ⟨-, s₃, f, roster, storage, hl', hfac, hknown, hname, hc, hro, rfl⟩
    · exact Or.inl (hl.trans hjoin)
    · -- the roster is stored by now, and the member is not
      have hrec : s₃.record h = s₁.record h := hl'.record_eq hlt
      have hwrite := not_writable_of_store unstored
      refine Or.inr (Or.inl ⟨s₃, h, f, roster, storage, hl.trans hl',
        hl'.kept pid h (hcached h rfl), ?_, hknown, hname, hc, hro, hwrite, rfl⟩)
      rw [hrec, hfac]
  | updated => exact Or.inr (Or.inr ⟨_, rfl⟩)

/-- The roster of the factory is not the one that was known, or would have been found. -/
theorem Strays.not_learns {pid : String} (h : s.Strays pid s') : ¬s.Learns s' := by
  obtain ⟨s₁, i, f, roster, storage, hl, -, -, hknown, hname, hc, -, -, rfl⟩ := h
  intro hl'
  have hnew : (({ s₁ with storage } : Session).keepRoster (roster.add pid)).cache.roster? f =
      some (roster.add pid) := by
    rw [roster?_keepRoster, if_pos ((roster.factoryPid_add pid).trans hname).symm]
  have hne : roster ≠ roster.add pid := by
    intro he
    have hin : (roster.add pid).contains pid = true := roster.contains_add.mpr (Or.inl rfl)
    rw [← he, hc] at hin
    cases hin
  cases hr : s.cache.roster? f with
  | some r =>
    have h₁ := hl.rosters f r hr
    have h₂ := hl'.rosters f r hr
    rw [hknown] at h₁
    rw [hnew] at h₂
    cases h₁
    exact hne (Option.some.inj h₂).symm
  | none =>
    exact hne ((hl.enlisted f roster hr hknown).unique (hl'.enlisted f _ hr hnew))

theorem ofResult_refused {α : Type} {f : α → Answer} (hf : ∀ a e, f a ≠ .refused e)
    {r : Except AdminError α} {e : AdminError} (h : Answer.ofResult f r = .refused e) :
    r = .error e := by
  cases r with
  | ok a => exact absurd h (hf a e)
  | error e' =>
    cases h
    rfl

/-- **A refused call changes nothing**, except when it has made a member of its factory of a
record that could not be stored. -/
theorem refused_learns_iff {w : World} {settings : Settings} {s : Session}
    (hs : start w settings = .ok s) (actions : List Action) {a : Action}
    (ha : a.isMutation = true) {e : AdminError}
    (hr : ((s.run actions).step a).1 = .refused e) :
    (s.run actions).Learns ((s.run actions).step a).2 ↔
      ¬∃ pid p, a = .update pid p ∧ (s.run actions).Strays pid ((s.run actions).step a).2 := by
  have hf := run_filed (start_filed hs) actions
  generalize s.run actions = s at hr hf
  refine ⟨fun hl => ?_, fun hno => ?_⟩
  · rintro ⟨pid, p, -, hst⟩
    exact hst.not_learns hl
  -- an answer that is granted is no refusal
  have hrefused : ∀ {α : Type} {f : α → Answer} {r : Except AdminError α × Session},
      (∀ a e, f a ≠ .refused e) → (answering f r).1 = .refused e →
        s.Learns r.2 ∨ (∃ a, r.1 = .ok a) → s.Learns r.2 := by
    rintro α f ⟨result, s'⟩ hf hr (hl | ⟨a, hok⟩)
    · exact hl
    · rw [ofResult_refused hf hr] at hok
      cases hok
  cases a with
  | getOrCreate pid location =>
    exact hrefused (fun _ _ h => by cases h) hr (s.getOrCreate_learns pid location)
  | createMember f location names =>
    exact hrefused (fun _ _ h => by cases h) hr (s.createMember_learns f location names)
  | delete pid => exact hrefused (fun _ _ h => by cases h) hr (s.delete_learns pid)
  | setLocation pid location =>
    exact hrefused (fun _ _ h => by cases h) hr (s.setLocation_learns pid location)
  | update pid p =>
    refine hrefused (fun _ _ h => by cases h) hr ?_
    rcases update_learns hf pid p with hl | hst | hok
    · exact Or.inl hl
    · exact absurd ⟨pid, p, rfl, hst⟩ hno
    · exact Or.inr hok
  | getExisting | members | list | getLocation | consumerRegistered | consumerWithdrawn
  | listenerRegistered | listenerWithdrawn | locationUninstalled | submit | addPlugin
  | removePlugin | around | runUpdate | runNotice | shutdown => cases ha

/-- A factory gets a member whose dictionary cannot be stored. -/
def stranded : List Action :=
  [.createMember "factory" none ["factory.0#"],
    .around (.backend "" fun b => { b with unwritable := ["factory.0#"] })]

/-- The first update of the member is refused, and the member stays on the roster. -/
theorem refused_learns_iff_stranded :
    ∃ s e, start {} {} = .ok s ∧
      ((s.run stranded).step (.update "factory.0#" .empty)).1 = .refused e ∧
      (s.run stranded).Strays "factory.0#"
        ((s.run stranded).step (.update "factory.0#" .empty)).2 := by
  obtain ⟨s, hs⟩ : ∃ s, start {} {} = .ok s := ⟨_, rfl⟩
  obtain ⟨e, he⟩ : ∃ e, ((s.run stranded).update "factory.0#" .empty).1 = .error e := by
    cases hs
    exact ⟨_, rfl⟩
  have hr : ((s.run stranded).step (.update "factory.0#" .empty)).1 = .refused e :=
    congrArg (Answer.ofResult Answer.generation) he
  have hmembers : (((s.run stranded).step (.update "factory.0#" .empty)).2.members
      "factory").1.toOption ≠ ((s.run stranded).members "factory").1.toOption := by
    cases hs
    decide
  refine ⟨s, e, hs, hr, ?_⟩
  by_contra hno
  have hl := (refused_learns_iff hs stranded rfl hr).mpr (by
    rintro ⟨pid, p, ha, hst⟩
    cases ha
    exact hno hst)
  exact hmembers (congrArg Except.toOption (hl.members_eq "factory"))

/-- The factory had no members before the update, and nothing was stored for it; after the update
was refused, it has one, and its roster is stored. -/
theorem update_refused_stranded :
    ∃ s e, start {} {} = .ok s ∧
      ((s.run stranded).step (.update "factory.0#" .empty)).1 = .refused e ∧
      ((s.run stranded).members "factory").1 = .ok [] ∧
      (((s.run stranded).step (.update "factory.0#" .empty)).2.members "factory").1 =
        .ok ["factory.0#"] ∧
      ((s.run stranded).storage.backend "").holds (Roster.idOf "factory") = false ∧
      (((s.run stranded).step (.update "factory.0#" .empty)).2.storage.backend "").holds
        (Roster.idOf "factory") = true := by
  obtain ⟨s, hs⟩ : ∃ s, start {} {} = .ok s := ⟨_, rfl⟩
  cases hs
  exact ⟨_, _, rfl, rfl, rfl, rfl, by decide, by decide⟩

end Session
end Provisioning
