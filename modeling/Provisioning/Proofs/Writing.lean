import Provisioning.Proofs.Strokes

/-! # What an operation writes

Whatever happens to a session is a sequence of strokes.  Each operation is taken apart here, once,
into strokes within a scope: a call writes to the configuration that it is about, and a task to
those of its records.
-/
namespace Provisioning

open Relation (ReflTransGen)

namespace Session

variable {scope : Scope} (s : Session)

/-! ### What changes marks only -/

theorem announce_sameButMarks (c : Change) (h : Handle) : s.SameButMarks (s.announce c h) := by
  unfold announce
  split
  · exact .refl s
  · exact .of_parts rfl rfl rfl rfl rfl

theorem noteCall_sameButMarks (t : Target) (c : Consumer) (p : Option Properties)
    (o : Option Occasion) : s.SameButMarks (s.noteCall t c p o) := by
  unfold noteCall
  split
  · exact .of_parts rfl rfl rfl rfl rfl
  · exact .refl s

theorem countResult_sameButMarks (f : Tally → Tally) (r : Except CallbackError Unit) :
    s.SameButMarks (s.countResult f r) := by
  cases r <;> exact .of_parts rfl rfl rfl rfl rfl

/-- A change of the marks of a record. -/
theorem change_sameButMarks {f : Record → Record} (hc : ∀ r : Record, r.SameContent (f r))
    (hb : ∀ r : Record, (f r).dynamicLocation = r.dynamicLocation) (h : Handle) :
    s.SameButMarks (s.change h f) := by
  refine ⟨⟨rfl, rfl⟩, rfl, rfl, List.suffix_rfl, s.view.length_change h f, fun i => ?_,
    fun i => ?_⟩
  · rw [← record_view (s.change h f), view_change, View.record_change]
    split
    · next he =>
      rw [he.1]
      exact hc _
    · exact .refl _
  · rw [← record_view, view_change, s.view.record_change_of_eq hb, record_view]

theorem revoke_sameButMarks (h : Handle) (t : Target) (c : Consumer) :
    s.SameButMarks (s.revoke h t c) :=
  (noteCall_sameButMarks _ _ _ _ _).trans (countResult_sameButMarks _ _ _)

theorem greet_sameButMarks (pid : String) (c : Consumer) (o : Option Occasion) :
    s.SameButMarks (s.greet pid c o) :=
  (noteCall_sameButMarks _ _ _ _ _).trans (countResult_sameButMarks _ _ _)

theorem serve_sameButMarks (h : Handle) (t : Target) (c : Consumer) (g : Nat) (p : Properties) :
    s.SameButMarks (s.serve h t c g p) :=
  ((noteCall_sameButMarks _ _ _ _ _).trans (countResult_sameButMarks _ _ _)).trans
    (change_sameButMarks _ (fun r => r.sameContent_note _ _) (fun _ => rfl) _)

theorem count_sameButMarks (f : Tally → Tally) : s.SameButMarks (s.count f) :=
  .of_parts rfl rfl rfl rfl rfl

theorem offer_sameButMarks (h : Handle) (t : Target) (owner : Option String) (g : Nat)
    (p : Properties)
    (c : Consumer) : s.SameButMarks (s.offer h t owner g p c) := by
  unfold offer
  split
  · exact s.count_sameButMarks _
  · split
    · exact s.serve_sameButMarks h t c g p
    · exact s.count_sameButMarks _

theorem retractFrom_sameButMarks (h : Handle) (t : Target) (owner : Option String) (c : Consumer) :
    s.SameButMarks (s.retractFrom h t owner c) := by
  unfold retractFrom
  split
  · exact s.revoke_sameButMarks h t c
  · exact .refl s

theorem reconsider_sameButMarks (h : Handle) (t : Target) (former owner : Option String)
    (c : Consumer) : s.SameButMarks (s.reconsider h t former owner c) := by
  unfold reconsider
  dsimp only
  split
  · exact (s.revoke_sameButMarks h t c).trans
      (change_sameButMarks _ (fun r => r.sameContent_forget _) (fun _ => rfl) _)
  · split
    · split
      · exact s.serve_sameButMarks h t c _ _
      · exact .refl s
    · exact .refl s

theorem tell_sameButMarks (n : Notice) (l : Service) : s.SameButMarks (s.tell n l) := by
  unfold tell
  split
  · refine SameButMarks.trans ?_ (countResult_sameButMarks _ _ _)
    exact .of_parts rfl rfl rfl rfl rfl
  · exact .refl s

theorem foldl_sameButMarks {α : Type} {f : Session → α → Session}
    (hf : ∀ (s : Session) (a : α), s.SameButMarks (f s a)) (l : List α) (s : Session) :
    s.SameButMarks (l.foldl f s) := by
  induction l generalizing s with
  | nil => exact .refl s
  | cons a rest ih => exact (hf s a).trans (ih (f s a))

theorem runNotice_sameButMarks : s.SameButMarks s.runNotice := by
  unfold runNotice
  split
  · exact .refl s
  · refine SameButMarks.trans ?_ (foldl_sameButMarks (fun s' l => s'.tell_sameButMarks _ l) _ _)
    exact .of_parts rfl rfl rfl rfl rfl

theorem consumerWithdrawn_sameButMarks (service : Nat) :
    s.SameButMarks (s.consumerWithdrawn service) :=
  foldl_sameButMarks (fun s' h => s'.change_sameButMarks (fun r => r.sameContent_forget _)
    (fun _ => rfl) h) _ s

theorem pop_sameButMarks : s.SameButMarks { s with updates := s.updates.pop } := by
  exact ⟨⟨rfl, rfl⟩, rfl, rfl, s.updates.waiting.tail_suffix, rfl, fun _ => .refl _,
    fun _ => rfl⟩

variable {s}

theorem SameButMarks.strokes {s' : Session} (h : s.SameButMarks s') : Strokes scope s s' :=
    .single (.sameButMarks h)

theorem strokes_of_parts {s' : Session} (hrecords : s'.records = s.records)
    (hcache : s'.cache = s.cache) (hupdates : s'.updates = s.updates)
    (hbindings : s'.bindings = s.bindings) (hstorage : s'.storage = s.storage) :
    Strokes scope s s' :=
  (SameButMarks.of_parts hrecords hcache hupdates hbindings hstorage).strokes

/-- What one round keeps to the scope, all rounds do, as long as their conditions last. -/
theorem foldl_strokes {α : Type} {f : Session → α → Session} {K : Session → Prop}
    {l : List α} (hstep : ∀ s, ∀ a ∈ l, K s → Strokes scope s (f s a))
    (hK : ∀ s s', Strokes scope s s' → K s → K s') (h : K s) :
    Strokes scope s (l.foldl f s) := by
  induction l generalizing s with
  | nil => exact .refl
  | cons a rest ih =>
    have hone := hstep s a List.mem_cons_self h
    exact hone.trans (ih (fun s b hb => hstep s b (List.mem_cons_of_mem a hb)) (hK s _ hone h))

/-! ### Tasks -/

theorem bind_strokes {h : Handle} (hh : s.Heeds scope h) (hdel : (s.record h).deleted = false)
    (location : String) : Strokes scope s (s.bind h location) := by
  unfold bind
  split
  · exact .refl
  · next hn =>
    have hone : Stroke scope s
        ((s.change h fun r => r.bind location).assignBinding (s.record h).pid (some location)) :=
      .bind hh.2.1 hh.1 hdel (Option.not_isSome_iff_eq_none.mp hn) rfl rfl
    exact hone.single.trans (announce_sameButMarks _ _ _).strokes

theorem bindFirst_strokes {h : Handle} (hh : s.Heeds scope h)
    (hdel : (s.record h).deleted = false) (targets : List Consumer) :
    Strokes scope s (s.bindFirst h targets) := by
  unfold bindFirst
  split
  · exact .refl
  · exact bind_strokes hh hdel _

theorem deliver_strokes {h : Handle} (hh : s.Heeds scope h) (g : Nat) (p : Properties) :
    Strokes scope s (s.deliver h g p) := by
  unfold deliver
  dsimp only
  split
  · exact .refl
  · next hdel =>
    split
    · exact (s.count_sameButMarks _).strokes
    · have hbind := bindFirst_strokes hh (by simpa using hdel)
        ((s.record h).target.resolve s.directory)
      refine hbind.trans (SameButMarks.strokes ?_)
      exact (foldl_sameButMarks (fun s' c => s'.offer_sameButMarks h _ _ g p c) _ _).trans
        (change_sameButMarks _ (fun r => r.sameContent_advance _) (fun _ => rfl) _)

theorem relocate_strokes {h : Handle} (hh : s.Heeds scope h) (former : Option String) :
    Strokes scope s (s.relocate h former) := by
  unfold relocate
  dsimp only
  split
  · exact .refl
  · next hdel =>
    exact (bindFirst_strokes hh (by simpa using hdel) _).trans
      (foldl_sameButMarks (fun s' c => s'.reconsider_sameButMarks h _ _ _ c) _ _).strokes

theorem introduce_strokes {h : Handle} (hh : s.Heeds scope h) (t : Target) (c : Consumer)
    (g : Nat) (p : Properties) : Strokes scope s (s.introduce h t c g p) := by
  unfold introduce
  dsimp only
  split
  · exact .refl
  · next hdel =>
    split
    · exact (s.count_sameButMarks _).strokes
    · split
      · exact (bind_strokes hh (by simpa using hdel) _).trans
          (serve_sameButMarks _ _ _ _ _ _).strokes
      · exact (s.count_sameButMarks _).strokes

theorem introduceEmpty_strokes {h : Handle} (hh : s.Heeds scope h) (pid : String)
    (c : Consumer) : Strokes scope s (s.introduceEmpty h pid c) := by
  unfold introduceEmpty
  dsimp only
  split
  · exact .refl
  · next hdel =>
    split
    · exact (bind_strokes hh (by simpa using hdel) _).trans (greet_sameButMarks _ _ _ _).strokes
    · exact (s.count_sameButMarks _).strokes

/-! ### Looking up -/

/-- A record that is not cached yet is entered. -/
theorem keepRecord_stroke {r : Record} (absent : s.view.cached.get? r.pid = none)
    (undeleted : r.deleted = false)
    (bound : r.dynamicLocation = none ∨
      (r.staticLocation = none ∧ r.dynamicLocation = s.bindings.get? r.pid))
    (stamped : r.Stamped) : Stroke scope s (s.keepRecord r).2 :=
  .adopt absent undeleted bound stamped (view_keepRecord absent) ⟨rfl, rfl⟩

theorem cached_keepRecord {r : Record} (absent : s.view.cached.get? r.pid = none) :
    (s.keepRecord r).2.view.cached.get? r.pid = some (s.keepRecord r).1 := by
  rw [view_keepRecord absent, View.cached_adopt, if_pos rfl]
  rfl

/-- What a record that takes up a binding is bound to. -/
theorem restore_bound {r : Record} (hr : r.dynamicLocation = none) (location : Option String) :
    (r.restore location).dynamicLocation = none ∨
      ((r.restore location).staticLocation = none ∧
        (r.restore location).dynamicLocation = location) := by
  unfold Record.restore
  split
  · next hs => exact Or.inr ⟨Option.isNone_iff_eq_none.mp hs, rfl⟩
  · exact Or.inl hr

theorem stamped_restore {r : Record} (hr : r.Stamped) (location : Option String) :
    (r.restore location).Stamped := by
  unfold Record.restore
  split
  · exact hr
  · exact hr

/-- A record that was never updated carries no properties that could lack its pids. -/
theorem stamped_of_none {r : Record} (hr : r.properties = none) : r.Stamped := by
  intro p hp
  rw [hr] at hp
  cases hp

/-- A record that is rebuilt from its dictionary is not bound, and carries its pids. -/
theorem ofDictionary_stamped {pid home : String} {d : Properties} {r : Record}
    (h : Record.ofDictionary pid home d = .ok r) : r.dynamicLocation = none ∧ r.Stamped := by
  unfold Record.ofDictionary at h
  split at h
  · cases h
  · dsimp only at h
    split at h
    · cases h
      refine ⟨rfl, ?_⟩
      rintro p ⟨⟩
      exact Properties.stamp_stamp _ _ _
    · cases h
      exact ⟨rfl, stamped_of_none rfl⟩

/-- A configuration that is looked up is cached, or is found in the storage and entered. -/
theorem configuration_enters (s : Session) (pid : String) :
    ((s.configuration pid).2 = s ∧
      ∀ found, (s.configuration pid).1 = .ok found → s.view.cached.get? pid = found) ∨
    ∃ r : Record, r.pid = pid ∧ s.view.cached.get? r.pid = none ∧ r.deleted = false ∧
      (r.dynamicLocation = none ∨
        (r.staticLocation = none ∧ r.dynamicLocation = s.bindings.get? r.pid)) ∧ r.Stamped ∧
      s.configuration pid = (.ok (some (s.keepRecord r).1), (s.keepRecord r).2) := by
  unfold configuration
  split
  · next h hc => exact Or.inl ⟨rfl, fun _ he => by cases he; exact hc⟩
  · next hc =>
    split
    · exact Or.inl ⟨rfl, fun _ he => by cases he; exact hc⟩
    · next home _ =>
      split
      · exact Or.inl ⟨rfl, fun _ he => by cases he⟩
      · next d _ =>
        split
        · exact Or.inl ⟨rfl, fun _ he => by cases he; exact hc⟩
        · split
          · exact Or.inl ⟨rfl, fun _ he => by cases he⟩
          · next r hr =>
            obtain ⟨rfl, huntouched⟩ := revive_spec hr
            right
            unfold revive at hr
            cases hd : Record.ofDictionary r.pid home d with
            | error e =>
              rw [hd] at hr
              cases hr
            | ok r' =>
              rw [hd] at hr
              obtain ⟨hbound, hstamped⟩ := ofDictionary_stamped hd
              have hrr : r'.restore (s.bindings.get? r.pid) = r := Except.ok.inj hr
              refine ⟨r, rfl, hc, huntouched.undeleted, ?_, ?_, rfl⟩
              · have hb := restore_bound hbound (s.bindings.get? r.pid)
                rwa [hrr] at hb
              · exact hrr ▸ stamped_restore hstamped _

theorem configuration_strokes (scope : Scope) (s : Session) (pid : String) :
    Strokes scope s (s.configuration pid).2 := by
  rcases s.configuration_enters pid with ⟨he, -⟩ | ⟨r, -, absent, undeleted, bound, stamped, he⟩
  · rw [he]
  · rw [he]
    exact .single (keepRecord_stroke absent undeleted bound stamped)

theorem configuration_cached (s : Session) {pid : String} {h : Handle}
    (hok : (s.configuration pid).1 = .ok (some h)) :
    (s.configuration pid).2.view.cached.get? pid = some h := by
  rcases s.configuration_enters pid with ⟨he, hc⟩ | ⟨r, rfl, absent, -, -, -, he⟩
  · rw [he]
    exact hc _ hok
  · rw [he] at hok ⊢
    cases hok
    exact cached_keepRecord absent

/-- What is not found was not cached, and nothing was done. -/
theorem configuration_absent {s s₁ : Session} {pid : String}
    (absent : s.configuration pid = (.ok none, s₁)) :
    s₁ = s ∧ s.view.cached.get? pid = none := by
  rcases s.configuration_enters pid with ⟨he, hc⟩ | ⟨r, -, -, -, -, -, he⟩
  · rw [absent] at he hc
    exact ⟨he, hc none rfl⟩
  · rw [absent] at he
    cases he

/-- The record that a call needs is cached by then. -/
theorem require_strokes (scope : Scope) (s : Session) (pid : String) :
    Strokes scope s (s.require pid).2 ∧
      ∀ h, (s.require pid).1 = .ok h → (s.require pid).2.view.cached.get? pid = some h := by
  obtain ⟨hsame, hfound⟩ := s.require_spec pid
  rw [hsame]
  exact ⟨s.configuration_strokes scope pid, fun h hok => s.configuration_cached (hfound h hok)⟩

theorem factory_strokes (scope : Scope) (s : Session) (f : String) :
    Strokes scope s (s.factory f).2 ∧
      ∀ r, (s.factory f).1 = .ok r → (s.factory f).2.view.rosters.get? f = some r := by
  unfold factory
  split
  · next r hr => exact ⟨.refl, fun _ hok => by cases hok; exact hr⟩
  · next hr =>
    split
    · next home hhome =>
      split
      · next r hload =>
        obtain ⟨rfl, hdistinct⟩ := Roster.load_spec hload
        refine ⟨.single (.found hr hdistinct (Or.inl ⟨home, hhome, hload⟩) rfl ⟨rfl, rfl⟩),
          fun _ hok => ?_⟩
        cases hok
        exact Table.get?_put_self _ _ _
      · exact ⟨.refl, fun _ hok => by cases hok⟩
    · next hnone =>
      split
      · next home hhome =>
        refine ⟨.single (.found (r := { factoryPid := f, home }) hr List.nodup_nil
          (Or.inr ⟨hnone, hhome, rfl⟩) rfl ⟨rfl, rfl⟩), fun _ hok => ?_⟩
        cases hok
        exact Table.get?_put_self _ _ _
      · exact ⟨.refl, fun _ hok => by cases hok⟩

/-! ### Rosters -/

/-- Where a name is put, the names in front of it are smaller. -/
theorem pairwise_insertBefore {x : String} {l : List String} (hl : l.Pairwise (· < ·))
    (hx : x ∉ l) : (Ranked.insertBefore (fun m => decide (x < m)) x l).Pairwise (· < ·) := by
  refine Ranked.pairwise_insertBefore (r := (· < ·)) String.lt_trans hl
    (fun y _ hlt => of_decide_eq_true hlt) fun y hy hnot => ?_
  have hle : y ≤ x := String.not_lt.mp (of_decide_eq_false hnot)
  exact Std.lt_of_le_of_ne hle fun h => hx (h ▸ hy)

theorem revises_add (r : Roster) (pid : String) : (r.add pid).Revises r := by
  unfold Roster.add
  split
  · exact ⟨rfl, rfl, id, id⟩
  · next hc =>
    refine ⟨rfl, rfl, fun hs => pairwise_insertBefore hs ?_, fun hd => ?_⟩
    · simpa [Roster.contains] using hc
    · have hadd := Roster.nodup_add hd pid
      rwa [Roster.add, if_neg hc] at hadd

theorem revises_remove (r : Roster) (pid : String) : (r.remove pid).Revises r :=
  ⟨rfl, rfl, fun hs => hs.filter _, fun hd => Roster.nodup_remove hd pid⟩

/-- Whoever joins is stored in the roster of its own factory. -/
theorem join_strokes (hv : s.view.Filed) {h : Handle}
    (hp : ∀ f, (s.record h).factoryPid = some f → scope.factories f) :
    Strokes scope s (s.join h).2 := by
  have hcourse := s.joining h
  generalize s.join h = result at hcourse ⊢
  cases hcourse with
  | single => exact .refl
  | @refused f => exact (s.factory_strokes scope f).1
  | @listed f r s₁ factory found =>
    have hf := (s.factory_strokes scope f).1
    rw [found] at hf
    exact hf
  | @joined f r s₁ storage factory found unlisted stored =>
    obtain ⟨hf, hknown⟩ := s.factory_strokes scope f
    rw [found] at hf hknown
    have hrev := revises_add r (s.record h).pid
    have hwithin : scope.factories (r.add (s.record h).pid).factoryPid := by
      rw [hrev.factoryPid, (hf.filed hv).titled f r (hknown r rfl)]
      exact hp f factory
    exact hf.tail (.enlist hwithin (hknown r rfl) hrev stored rfl rfl)

/-- A revised roster is kept, stored or not. -/
theorem revise_strokes (hv : s.view.Filed) {f : String} {r r' : Roster}
    (hknown : s.view.rosters.get? f = some r) (hrev : r'.Revises r) (hp : scope.factories f) :
    Strokes scope s (match r'.store s.storage with
      | .ok storage => { s.keepRoster r' with storage }
      | .error _ => s.keepRoster r') := by
  split
  · next storage stored =>
    have hwithin : scope.factories r'.factoryPid := by
      rw [hrev.factoryPid, hv.titled f r hknown]
      exact hp
    exact .single (.enlist hwithin hknown hrev stored rfl rfl)
  · next e failed => exact .single (.lag hknown hrev failed rfl ⟨rfl, rfl⟩)

theorem expel_strokes (hv : s.view.Filed) (pid : String) {f : String} (hp : scope.factories f) :
    Strokes scope s (s.expel pid f) := by
  obtain ⟨hf, hknown⟩ := s.factory_strokes scope f
  unfold expel
  split
  · next he =>
    rw [he] at hf
    exact hf
  · next r s₁ he =>
    rw [he] at hf hknown
    split
    · exact hf.trans
        (revise_strokes (hf.filed hv) (hknown r rfl) (revises_remove r pid) hp)
    · exact hf

theorem retract_strokes (hv : s.view.Filed) {h : Handle} (owner : Option String)
    (hp : ∀ f, (s.record h).factoryPid = some f → scope.factories f) :
    Strokes scope s (s.retract h owner) := by
  have hloop : Strokes scope s (((s.record h).target.resolve s.directory).foldl
      (fun s' c => s'.retractFrom h (s.record h).target owner c) s) :=
    (foldl_sameButMarks (fun s' c => s'.retractFrom_sameButMarks h _ owner c) _ s).strokes
  unfold retract
  dsimp only
  split
  · next f hf => exact hloop.trans (expel_strokes (hloop.filed hv) _ (hp f hf))
  · exact hloop

/-! ### Running a task -/

theorem attach_strokes (c : Consumer) (pid : String) (snapshot : Option Snapshot)
    (hm : ∀ m ∈ snapshot, s.Heeds scope m.record) :
    Strokes scope s (s.attach c pid snapshot) := by
  unfold attach
  split
  · exact .refl
  · split
    · exact (s.greet_sameButMarks pid c none).strokes
    · next h p g => exact introduce_strokes (hm _ rfl) _ c g p
    · next h g => exact introduceEmpty_strokes (hm _ rfl) pid c

theorem attachFactory_strokes (c : Consumer) (members : List Snapshot)
    (hm : ∀ m ∈ members, s.Heeds scope m.record) :
    Strokes scope s (s.attachFactory c members) := by
  unfold attachFactory
  split
  · exact .refl
  · refine foldl_strokes (K := fun s => ∀ m ∈ members, s.Heeds scope m.record)
      (fun s m hmem hK => ?_) (fun s s' hs hK m hmem => hs.follows.heeds (hK m hmem)) hm
    unfold attachMember
    split
    · exact introduce_strokes (hK m hmem) _ c _ _
    · exact .refl

/-- **A task writes to its records' own entries**, and to the rosters of their factories. -/
theorem perform_strokes (hv : s.view.Filed) {t : Task}
    (hm : ∀ h ∈ t.records, s.Heeds scope h) : Strokes scope s (s.perform t) := by
  cases t with
  | deliver h g p => exact deliver_strokes (hm h List.mem_cons_self) g p
  | retract h owner => exact retract_strokes hv owner (hm h List.mem_cons_self).2.2
  | relocate h former => exact relocate_strokes (hm h List.mem_cons_self) former
  | attach c pid snapshot =>
    refine attach_strokes c pid snapshot fun m hmem => hm m.record ?_
    exact List.mem_map_of_mem (Option.mem_toList.mpr hmem)
  | attachFactory c f members =>
    exact attachFactory_strokes c members fun m hmem => hm m.record (List.mem_map_of_mem hmem)

/-! ### Calls -/

theorem schedule_stroke (s : Session) {t : Task} (hm : ∀ h ∈ t.records, s.Heeds scope h) :
    Stroke scope s (s.schedule t) :=
  .queue hm (s.view_schedule t) ⟨rfl, rfl⟩

/-- A new record takes up the binding that is remembered for it. -/
theorem restored_new {pid home : String} {location bound : Option String} {r : Record}
    (new : r = ({ pid, factoryPid := none, home, staticLocation := location } :
      Record).restore bound) :
    r.pid = pid ∧ r.deleted = false ∧
      (r.dynamicLocation = none ∨ (r.staticLocation = none ∧ r.dynamicLocation = bound)) ∧
      r.Stamped := by
  have hblank : ({ pid, factoryPid := none, home, staticLocation := location } :
      Record).Blank := ⟨⟨rfl, rfl, rfl⟩, rfl, rfl⟩
  subst new
  exact ⟨(Record.restore_identity _ bound).1, (hblank.restore bound).undeleted,
    restore_bound rfl bound, stamped_of_none (hblank.restore bound).properties⟩

theorem getOrCreate_strokes (s : Session) {pid : String} (hp : scope.stored pid)
    (location : Option String) : Strokes scope s (s.getOrCreate pid location).2 := by
  have hf := s.configuration_strokes scope pid
  have hcourse := s.creating pid location
  generalize s.getOrCreate pid location = result at hcourse ⊢
  cases hcourse with
  | refused looked =>
    rcases looked with rfl | rfl
    · exact .refl
    · exact hf
  | found => exact hf
  | @made s₁ home r storage absent primary new stored =>
    obtain ⟨rfl, hnone⟩ := configuration_absent absent
    obtain ⟨hpid, hundeleted, hbound, hstamped⟩ := restored_new new
    have hstore : Stroke scope s₁ { s₁ with storage } := .store hp stored rfl rfl
    refine hstore.single.tail
      (keepRecord_stroke ?_ hundeleted (hpid ▸ hbound) hstamped)
    rw [hpid]
    exact hnone

theorem minting_strokes {s : Session} {f : String} {location : Option String}
    {names : List String} {result : Except AdminError (Option Handle) × Session}
    (hcourse : Minting f location s names result) : Strokes scope s result.2 := by
  induction hcourse with
  | exhausted => exact .refl
  | @refused s pid => exact s.configuration_strokes scope pid
  | @taken s pid rest result next ih => exact (s.configuration_strokes scope pid).trans ih
  | @made s s₁ pid home rest r absent primary new =>
    obtain ⟨rfl, hnone⟩ := configuration_absent absent
    subst new
    exact .single (keepRecord_stroke hnone rfl (Or.inl rfl) (stamped_of_none rfl))

theorem createMember_strokes (s : Session) (f : String) (location : Option String)
    (names : List String) : Strokes scope s (s.createMember f location names).2 := by
  have hf := (s.factory_strokes scope f).1
  have hcourse := s.recruiting f location names
  generalize s.createMember f location names = result at hcourse ⊢
  cases hcourse with
  | refused looked =>
    rcases looked with rfl | rfl
    · exact .refl
    · exact hf
  | minted hcourse => exact hf.trans (minting_strokes hcourse)

theorem heeds_of_cached (hv : s.view.Filed) {pid : String} {h : Handle}
    (hc : s.view.cached.get? pid = some h) (hb : scope.bound pid)
    (hf : ∀ f, (s.record h).factoryPid = some f → scope.factories f) : s.Heeds scope h := by
  refine ⟨minds_of_cached hv hc, ?_, hf⟩
  have hpid : (s.record h).pid = pid := (hv.held pid h hc).2.1
  rw [hpid]
  exact hb

/-- A record is updated, and what there is to be delivered waits. -/
theorem commit_strokes {h : Handle} (hh : s.Heeds scope h) (p : Properties) :
    Strokes scope s (s.commit h p) := by
  have hcommit : Stroke scope s (s.change h fun r => r.commit p) := .commit rfl ⟨rfl, rfl⟩
  have hone : Strokes scope s ((s.change h fun r => r.commit p).announce .updated h) :=
    hcommit.single.trans (announce_sameButMarks _ _ _).strokes
  refine hone.tail (schedule_stroke _ fun h' hmem => ?_)
  rw [List.mem_singleton.mp hmem]
  exact hone.follows.heeds hh

theorem update_strokes (hv : s.view.Filed) {pid : String} (hp : scope.stored pid)
    (hb : scope.bound pid)
    (hf : ∀ h, (s.require pid).1 = .ok h → ∀ f, ((s.require pid).2.record h).factoryPid = some f →
      scope.factories f) (p : Properties) : Strokes scope s (s.update pid p).2 := by
  obtain ⟨hreq, hcached⟩ := s.require_strokes scope pid
  have hcourse := s.updating pid p
  generalize s.update pid p = result at hcourse ⊢
  cases hcourse with
  | refused looked =>
    rcases looked with rfl | rfl
    · exact .refl
    · exact hreq
  | @unjoined h s₁ s₂ e required unjoined =>
    rw [required] at hreq hf
    have hjoin := join_strokes (hreq.filed hv) (hf h rfl)
    rw [unjoined] at hjoin
    exact hreq.trans hjoin
  | @unstored h s₁ s₂ e required joined =>
    rw [required] at hreq hf
    have hjoin := join_strokes (hreq.filed hv) (hf h rfl)
    rw [joined] at hjoin
    exact hreq.trans hjoin
  | @updated h s₁ s₂ storage required joined stored =>
    rw [required] at hreq hf hcached
    have hjoin := join_strokes (hreq.filed hv) (hf h rfl)
    rw [joined] at hjoin
    have hstore : Stroke scope s₂ { s₂ with storage } := .store hp stored rfl rfl
    have hbefore := (hreq.trans hjoin).tail hstore
    -- the record is cached since it was required
    have hheeds : s₁.Heeds scope h := heeds_of_cached (hreq.filed hv) (hcached h rfl) hb (hf h rfl)
    exact hbefore.trans (commit_strokes ((hjoin.tail hstore).follows.heeds hheeds) p)

theorem discard_strokes (hv : s.view.Filed) {pid : String} {h : Handle}
    (hc : s.view.cached.get? pid = some h) (hp : scope.bound pid)
    (hf : ∀ f, (s.record h).factoryPid = some f → scope.factories f) :
    Strokes scope s (s.discard h pid) := by
  have hheeds := heeds_of_cached hv hc hp hf
  obtain rfl : (s.record h).pid = pid := (hv.held pid h hc).2.1
  generalize hs₁ : ({ s.change h fun r => { r with deleted := true } with
    cache := s.cache.drop (s.record h).pid } : Session).assignBinding (s.record h).pid none = s₁
  have hdrop : Stroke scope s s₁ := by
    subst hs₁
    exact .drop hp hc rfl rfl
  have hone := hdrop.single.trans
    (announce_sameButMarks s₁ .deleted h).strokes
  have hall := hone.tail
    (schedule_stroke (t := .retract h ((s₁.announce .deleted h).record h).owner)
    _ fun h' hmem => by
      rw [List.mem_singleton.mp hmem]
      exact hone.follows.heeds hheeds)
  subst hs₁
  exact hall

theorem delete_strokes (hv : s.view.Filed) {pid : String} (hp : scope.stored pid)
    (hb : scope.bound pid)
    (hf : ∀ h, (s.require pid).1 = .ok h → ∀ f, ((s.require pid).2.record h).factoryPid = some f →
      scope.factories f) : Strokes scope s (s.delete pid).2 := by
  obtain ⟨hreq, hcached⟩ := s.require_strokes scope pid
  have hcourse := s.deleting pid
  generalize s.delete pid = result at hcourse ⊢
  cases hcourse with
  | refused looked =>
    rcases looked with rfl | rfl
    · exact .refl
    · exact hreq
  | @deleted h s₁ storage running required stored =>
    rw [required] at hreq hcached hf
    have hremove : Stroke scope s₁ { s₁ with storage } := .remove hp stored rfl rfl
    have hbefore := hreq.tail hremove
    exact hbefore.trans (discard_strokes (hbefore.filed hv) (hcached h rfl) hb (hf h rfl))

theorem resettle_strokes (hv : s.view.Filed) {pid : String} {h : Handle}
    (hc : s.view.cached.get? pid = some h) (hp : scope.bound pid)
    (hf : ∀ f, (s.record h).factoryPid = some f → scope.factories f) (location : Option String) :
    Strokes scope s (s.resettle h pid location) := by
  have hheeds := heeds_of_cached hv hc hp hf
  obtain rfl : (s.record h).pid = pid := (hv.held pid h hc).2.1
  have hsettle : Strokes scope s
      ((s.change h fun r => r.relocate location).assignBinding (s.record h).pid none) :=
    .single (.settle hp hc rfl rfl)
  unfold resettle
  dsimp only
  split
  · exact hsettle
  · have hone := hsettle.trans (announce_sameButMarks _ .relocated h).strokes
    split
    · refine hone.tail (schedule_stroke _ fun h' hmem => ?_)
      rw [List.mem_singleton.mp hmem]
      exact hone.follows.heeds hheeds
    · exact hone

theorem setLocation_strokes (hv : s.view.Filed) {pid : String} (hp : scope.stored pid)
    (hb : scope.bound pid)
    (hf : ∀ h, (s.require pid).1 = .ok h → ∀ f, ((s.require pid).2.record h).factoryPid = some f →
      scope.factories f)
    (location : Option String) :
    Strokes scope s (s.setLocation pid location).2 := by
  obtain ⟨hreq, hcached⟩ := s.require_strokes scope pid
  have hcourse := s.settling pid location
  generalize s.setLocation pid location = result at hcourse ⊢
  cases hcourse with
  | refused looked =>
    rcases looked with rfl | rfl
    · exact .refl
    · exact hreq
  | @settled h s₁ storage required stored =>
    rw [required] at hreq hcached hf
    have hstore : Strokes scope s₁ { s₁ with storage } := by
      unfold storeLocation at stored
      dsimp only at stored
      split at stored
      · cases stored
        exact .refl
      · exact .single (.store hp stored rfl rfl)
    have hbefore := hreq.trans hstore
    exact hbefore.trans (resettle_strokes (hbefore.filed hv) (hcached h rfl) hb (hf h rfl) location)

/-! ### Hooks -/

theorem attachSingle_strokes (hv : s.view.Filed) (hw : scope.Wide) (c : Consumer)
    (pid : String) : Strokes scope s (s.attachSingle c pid) := by
  have hconf := s.configuration_strokes scope pid
  refine hconf.tail (schedule_stroke _ fun h hh => ?_)
  dsimp only [Task.records] at hh
  split at hh
  · next h' hok =>
    have hcached := s.configuration_cached hok
    obtain rfl : h = h' := by simpa [Snapshot.of] using hh
    exact ⟨minds_of_cached (hconf.filed hv) hcached, hw.covers _⟩
  · simp at hh

/-- What a part of the roll call writes and finds out. -/
structure Mustered (scope : Scope) (s s' : Session) (roll roll' : MusterRoll) : Prop where
  strokes : Strokes scope s s'
  rosters : s'.view.rosters = s.view.rosters
  revises : roll'.roster.Revises roll.roster
  snapshots : ∀ m ∈ roll'.snapshots, m ∈ roll.snapshots ∨ s'.Minds m.record

theorem configuration_rosters (s : Session) (pid : String) :
    (s.configuration pid).2.view.rosters = s.view.rosters := by
  rcases s.configuration_enters pid with ⟨he, -⟩ | ⟨r, -, absent, -, -, -, he⟩
  · rw [he]
  · rw [he]
    dsimp only
    rw [view_keepRecord absent]
    rfl

theorem revises_refl (r : Roster) : r.Revises r := ⟨rfl, rfl, id, id⟩

theorem muster_strokes (scope : Scope) (hv : s.view.Filed) (f : String) (roll : MusterRoll)
    (pid : String) :
    Mustered scope s (s.muster f roll pid).2 roll (s.muster f roll pid).1 := by
  have hconf := s.configuration_strokes scope pid
  have hrosters := s.configuration_rosters pid
  have hcached : ∀ h, (s.configuration pid).1 = .ok (some h) →
      (s.configuration pid).2.view.cached.get? pid = some h := fun _ => s.configuration_cached
  unfold muster
  split
  · next he =>
    rw [he] at hconf hrosters
    exact ⟨hconf, hrosters, revises_refl _, fun m hm => Or.inl hm⟩
  · next h s₁ he =>
    rw [he] at hconf hrosters hcached
    dsimp only
    split
    · split
      · exact ⟨hconf, hrosters, revises_refl _, fun m hm => Or.inl hm⟩
      · refine ⟨hconf, hrosters, revises_refl _, fun m hm => ?_⟩
        rcases List.mem_append.mp hm with hm | hm
        · exact Or.inl hm
        · rw [List.mem_singleton.mp hm]
          exact Or.inr (minds_of_cached (hconf.filed hv) (hcached h rfl))
    · exact ⟨hconf, hrosters, revises_remove _ _, fun m hm => Or.inl hm⟩
  · next he =>
    rw [he] at hconf hrosters
    exact ⟨hconf, hrosters, revises_remove _ _, fun m hm => Or.inl hm⟩

theorem musterAll_strokes (scope : Scope) (hv : s.view.Filed) (f : String) (pids : List String)
    (roll : MusterRoll) :
    Mustered scope s (musterAll f pids roll s).2 roll (musterAll f pids roll s).1 := by
  induction pids generalizing s roll with
  | nil => exact ⟨.refl, rfl, revises_refl _, fun m hm => Or.inl hm⟩
  | cons pid rest ih =>
    have h := muster_strokes scope hv f roll pid
    have h' := ih (h.strokes.filed hv) (s.muster f roll pid).1
    refine ⟨h.strokes.trans h'.strokes, h'.rosters.trans h.rosters, ?_, fun m hm => ?_⟩
    · exact ⟨h'.revises.factoryPid.trans h.revises.factoryPid,
        h'.revises.home.trans h.revises.home,
        fun hs => h'.revises.sorted (h.revises.sorted hs),
        fun hd => h'.revises.distinct (h.revises.distinct hd)⟩
    · rcases h'.snapshots m hm with hm | hm
      · exact (h.snapshots m hm).imp_right (h'.strokes.follows.minds _)
      · exact Or.inr hm

theorem prune_strokes (scope : Scope) (hv : s.view.Filed) {f : String} {before after : Roster}
    (hknown : s.view.rosters.get? f = some before) (hrev : after.Revises before)
    (hp : scope.factories f) : Strokes scope s (s.prune before after) := by
  unfold prune
  split
  · exact revise_strokes hv hknown hrev hp
  · exact .refl

theorem attachMembers_strokes (hv : s.view.Filed) (hw : scope.Wide) (c : Consumer)
    (f : String) : Strokes scope s (s.attachMembers c f) := by
  obtain ⟨hf, hknown⟩ := s.factory_strokes scope f
  unfold attachMembers
  split
  · next he =>
    rw [he] at hf
    exact hf
  · next r s₁ he =>
    rw [he] at hf hknown
    have hcall := musterAll_strokes scope (hf.filed hv) f r.members { roster := r }
    generalize musterAll f r.members { roster := r } s₁ = result at hcall ⊢
    obtain ⟨roll, s₂⟩ := result
    have hbefore := hf.trans hcall.strokes
    have hprune := prune_strokes scope (hbefore.filed hv)
      ((congrArg (fun t => t.get? f) hcall.rosters).trans (hknown r rfl)) hcall.revises
      (hw.factories f)
    refine (hbefore.trans hprune).tail (schedule_stroke _ fun h hh => ?_)
    obtain ⟨m, hm, rfl⟩ := List.mem_map.mp hh
    rcases hcall.snapshots m hm with hm | hm
    · exact absurd hm List.not_mem_nil
    · exact ⟨hprune.follows.minds _ hm, hw.covers _⟩

theorem consumerRegistered_strokes (hv : s.view.Filed) (hw : scope.Wide) (c : Consumer) :
    Strokes scope s (s.consumerRegistered c) := by
  unfold consumerRegistered
  split
  · refine foldl_strokes (K := fun s => s.view.Filed) (fun s pid _ hs => ?_)
      (fun _ _ hs => hs.filed) hv
    unfold attachTo
    split
    · exact attachSingle_strokes hs hw c pid
    · exact attachMembers_strokes hs hw c pid
  · exact .refl

/-! ### A provider that is uninstalled -/

/-- What releasing some records does. -/
structure Released (location : String) (handles : List Handle) (s s' : Session) : Prop
    extends WritesNothing s s' where
  cached : s'.view.cached = s.view.cached
  rosters : s'.view.rosters = s.view.rosters
  waiting : ∃ queued, s'.view.waiting = s.view.waiting ++ queued ∧
    ∀ t ∈ queued, ∃ h ∈ handles, t.records = [h]
  length : s'.view.records.length = s.view.records.length
  content : ∀ h, (s.record h).SameContent (s'.record h)
  dynamic : ∀ h, (s'.record h).dynamicLocation =
    if h ∈ handles then ((s.record h).release location).dynamicLocation
    else (s.record h).dynamicLocation

/-- What one record is bound to once another one, or the same, was released. -/
theorem dynamicLocation_release (v : View) (h i : Handle) (location : String) :
    ((v.change h fun r => r.release location).record i).dynamicLocation =
      if i ∈ [h] then ((v.record i).release location).dynamicLocation
      else (v.record i).dynamicLocation := by
  rw [View.record_change]
  by_cases hi : i = h
  · subst hi
    rw [if_pos List.mem_cons_self]
    split
    · rfl
    · next hlt =>
      -- a record that is not there is not bound
      have hge : v.records.length ≤ i := Nat.le_of_not_lt fun hlt' => hlt ⟨rfl, hlt'⟩
      rw [View.record_of_length_le hge]
      rfl
  · rw [if_neg fun he => hi he.1, if_neg (by simpa using hi)]

theorem releaseFrom_released (s : Session) (location : String) (h : Handle) :
    Released location [h] s (s.releaseFrom location h) := by
  unfold releaseFrom
  split
  · next hb =>
    have hview : (((s.change h fun r => r.release location).announce .relocated h).schedule
        (.relocate h (some location))).view =
        (s.view.change h fun r => r.release location).enqueue (.relocate h (some location)) := by
      rw [view_schedule, view_announce, view_change]
    have hbutMarks := announce_sameButMarks (s.change h fun r => r.release location) .relocated h
    have hrec : ∀ i, (((s.change h fun r => r.release location).announce .relocated h).schedule
        (.relocate h (some location))).record i =
        (s.view.change h fun r => r.release location).record i := by
      intro i
      rw [← record_view, hview, View.record_enqueue]
    refine ⟨⟨hbutMarks.bindings, hbutMarks.storage⟩, ?_, ?_, ?_, ?_, fun i => ?_, fun i => ?_⟩
    · rw [hview, View.enqueue_eq]
      rfl
    · rw [hview, View.enqueue_eq]
      rfl
    · obtain ⟨queued, hqueued, hall⟩ :=
        (s.view.change h fun r => r.release location).waiting_enqueue (.relocate h (some location))
      rw [hview]
      refine ⟨queued, hqueued, fun t ht => ⟨h, List.mem_cons_self, ?_⟩⟩
      rw [hall t ht]
      rfl
    · rw [hview, View.enqueue_eq]
      exact s.view.length_change h _
    · rw [hrec, View.record_change]
      split
      · next he =>
        rw [he.1]
        exact (s.view.record h).sameContent_release location
      · exact .refl _
    · rw [hrec]
      exact dynamicLocation_release s.view h i location
  · next hb =>
    have hsame : (s.record h).release location = s.record h := by
      unfold Record.release
      rw [if_neg hb]
    refine ⟨⟨rfl, rfl⟩, rfl, rfl, ⟨[], (List.append_nil _).symm, ?_⟩, rfl, fun _ => .refl _,
      fun i => ?_⟩
    · exact fun _ ht => absurd ht List.not_mem_nil
    split
    · next hi => rw [List.mem_singleton.mp hi, hsame]
    · rfl

/-- A record that was released is not released again. -/
theorem release_again {r r' : Record} {location : String} (hc : r.SameContent r')
    (hd : r'.dynamicLocation = (r.release location).dynamicLocation ∨
      r'.dynamicLocation = r.dynamicLocation) :
    (r'.release location).dynamicLocation = (r.release location).dynamicLocation := by
  rw [r.release_eq] at hd ⊢
  rw [r'.release_eq]
  dsimp only at hd ⊢
  unfold Record.isBoundTo at hd ⊢
  rw [hc.staticLocation]
  rcases hd with hd | hd
  · rw [hd]
    by_cases hb : (r.staticLocation.isNone && r.dynamicLocation == some location) = true
    · simp [hb]
    · rw [if_neg hb, if_neg hb]
  · rw [hd]

theorem Released.cons {s s₁ s₂ : Session} {location : String} {h : Handle}
    {rest : List Handle} (hone : Released location [h] s s₁)
    (hrest : Released location rest s₁ s₂) : Released location (h :: rest) s s₂ where
  bindings := hrest.bindings.trans hone.bindings
  storage := hrest.storage.trans hone.storage
  cached := hrest.cached.trans hone.cached
  rosters := hrest.rosters.trans hone.rosters
  waiting := by
    obtain ⟨queued, hq, htasks⟩ := hone.waiting
    obtain ⟨more, hm, htasks'⟩ := hrest.waiting
    refine ⟨queued ++ more, by rw [hm, hq, List.append_assoc], fun t ht => ?_⟩
    rcases List.mem_append.mp ht with ht | ht
    · obtain ⟨i, hi, he⟩ := htasks t ht
      exact ⟨h, List.mem_cons_self, List.mem_singleton.mp hi ▸ he⟩
    · obtain ⟨i, hi, he⟩ := htasks' t ht
      exact ⟨i, List.mem_cons_of_mem h hi, he⟩
  length := hrest.length.trans hone.length
  content := fun i => (hone.content i).trans (hrest.content i)
  dynamic := by
    intro i
    have hd := hone.dynamic i
    have hagain := release_again (hone.content i) (by
      rw [hd]
      split
      · exact Or.inl rfl
      · exact Or.inr rfl)
    rw [hrest.dynamic, hagain, hd]
    by_cases hi : i = h
    · simp [hi]
    · simp [hi]

theorem foldl_released (location : String) (handles : List Handle) (s : Session) :
    Released location handles s (handles.foldl (fun s h => s.releaseFrom location h) s) := by
  induction handles generalizing s with
  | nil =>
    refine ⟨⟨rfl, rfl⟩, rfl, rfl, ⟨[], (List.append_nil _).symm, ?_⟩, rfl, fun _ => .refl _,
      fun i => ?_⟩
    · exact fun _ ht => absurd ht List.not_mem_nil
    rw [if_neg List.not_mem_nil]
    rfl
  | cons h rest ih => exact (s.releaseFrom_released location h).cons (ih _)

theorem foldl_assignBinding (pids : List String) (s : Session) :
    (pids.foldl (fun s pid => s.assignBinding pid none) s).view = s.view ∧
      ((pids.foldl (fun s pid => s.assignBinding pid none) s).bindings,
        (pids.foldl (fun s pid => s.assignBinding pid none) s).storage) =
          Bindings.withdrawAll pids (s.bindings, s.storage) := by
  induction pids generalizing s with
  | nil => exact ⟨rfl, rfl⟩
  | cons pid rest ih => exact ih (s.assignBinding pid none)

theorem locationUninstalled_stroke (hv : s.view.Filed) (hw : scope.Wide) (location : String) :
    Stroke scope s (s.locationUninstalled location) := by
  unfold locationUninstalled
  dsimp only
  obtain ⟨hview, hsameStored⟩ := foldl_assignBinding (s.bindings.boundTo location) s
  generalize (s.bindings.boundTo location).foldl (fun s pid => s.assignBinding pid none) s = s₁
    at hview hsameStored ⊢
  have hr := foldl_released location s₁.cache.records.values s₁
  generalize s₁.cache.records.values.foldl (fun s h => s.releaseFrom location h) s₁ = s₂ at hr ⊢
  have hmem : ∀ h, h ∈ s₁.cache.records.values ↔ ∃ pid, s.view.cached.get? pid = some h := by
    intro h
    rw [← hview]
    exact Table.mem_values_iff
  refine Stroke.vacate (fun pid (_ : pid ∈ s.bindings.boundTo location) => hw.bound pid) ?_ ?_
    ?_ ?_ (fun h => ?_) (fun pid h hc => ?_) ?_
  · rw [hr.cached, hview]
  · rw [hr.rosters, hview]
  · obtain ⟨queued, hq, htasks⟩ := hr.waiting
    rw [hview] at hq
    refine ⟨queued, hq ▸ List.suffix_rfl, fun t ht h hh => ?_⟩
    obtain ⟨i, hi, he⟩ := htasks t ht
    rw [he] at hh
    obtain ⟨pid, hc⟩ := (hmem i).mp hi
    rw [List.mem_singleton.mp hh]
    exact ⟨minds_of_cached hv hc, hw.covers _⟩
  · rw [hr.length, hview]
  · have hcontent := hr.content h
    rwa [record_of_view hview] at hcontent
  · rw [hr.dynamic, if_pos ((hmem h).mpr ⟨pid, hc⟩), record_of_view hview]
  · rw [hr.bindings, hr.storage]
    exact hsameStored

end Session

namespace Action

/-- The pids of the configurations that a call may store. -/
def stores : Action → List String
  | .getOrCreate pid _ => [pid]
  | .update pid _ => [pid]
  | .delete pid => [pid]
  | .setLocation pid _ => [pid]
  | _ => []

end Action

namespace Session

variable {scope : Scope} {s : Session}

/-! ### Steps and runs -/

/-- An action of a session that is not at its end, which nobody submits tasks to. -/
structure Within (scope : Scope) (a : Action) : Prop where
  unsubmitted : ∀ t, a ≠ .submit t
  unfinished : a ≠ .shutdown
  stored : ∀ pid ∈ a.stores, scope.stored pid
  tampering : ∀ name change, a = .around (.backend name change) → scope.tampering

/-- Calls and hooks are sequences of strokes. -/
theorem occurrence_strokes (hv : s.view.Filed) (hw : scope.Wide) {a : Action}
    (ha : Within scope a) (hwork : a ≠ .runUpdate) : Strokes scope s (s.step a).2 := by
  cases a with
  | getOrCreate pid location =>
    exact s.getOrCreate_strokes (ha.stored pid List.mem_cons_self) location
  | getExisting pid =>
    show Strokes scope s (s.getExisting pid).2
    rcases s.getExisting_looks pid with he | he <;> rw [he]
    exact s.configuration_strokes scope pid
  | createMember f location names => exact s.createMember_strokes f location names
  | members f =>
    show Strokes scope s (s.members f).2
    rcases s.members_looks f with he | he <;> rw [he]
    exact (s.factory_strokes scope f).1
  | list filter => exact .refl
  | update pid p =>
    exact update_strokes hv (ha.stored pid List.mem_cons_self) (hw.bound pid)
      (fun _ _ f _ => hw.factories f) p
  | delete pid =>
    exact delete_strokes hv (ha.stored pid List.mem_cons_self) (hw.bound pid)
      fun _ _ f _ => hw.factories f
  | setLocation pid location =>
    exact setLocation_strokes hv (ha.stored pid List.mem_cons_self) (hw.bound pid)
      (fun _ _ f _ => hw.factories f) location
  | getLocation pid =>
    show Strokes scope s (s.getLocation pid).2
    rcases s.getLocation_looks pid with he | he <;> rw [he]
    exact s.configuration_strokes scope pid
  | consumerRegistered c => exact consumerRegistered_strokes hv hw c
  | consumerWithdrawn service => exact (s.consumerWithdrawn_sameButMarks service).strokes
  | listenerRegistered l =>
    show Strokes scope s (s.listenerRegistered l)
    unfold listenerRegistered
    split
    · exact .refl
    · exact strokes_of_parts rfl rfl rfl rfl rfl
  | listenerWithdrawn service => exact strokes_of_parts rfl rfl rfl rfl rfl
  | locationUninstalled location => exact (locationUninstalled_stroke hv hw location).single
  | submit t => exact absurd rfl (ha.unsubmitted t)
  | addPlugin | removePlugin => exact strokes_of_parts rfl rfl rfl rfl rfl
  | around action =>
    show Strokes scope s { s with toWorld := s.toWorld.step action }
    cases action with
    | backend name change =>
      refine Stroke.single ?_
      exact .tamper (ha.tampering name change rfl) rfl rfl
    | withdraw id | behave id =>
      refine strokes_of_parts ?_ rfl rfl rfl ?_
      · simp only [World.step]
        split <;> rfl
      · simp only [World.step]
        split <;> rfl
    | install | setState | uninstall | addConsumer | addListener =>
      exact strokes_of_parts rfl rfl rfl rfl rfl
  | runUpdate => exact absurd rfl hwork
  | runNotice => exact s.runNotice_sameButMarks.strokes
  | shutdown => exact absurd rfl ha.unfinished

theorem runUpdate_strokes (ht : s.Tidy) (hw : scope.Wide) : Strokes scope s s.runUpdate := by
  cases hline : s.view.waiting with
  | nil =>
    rw [s.runUpdate_idle hline]
  | cons t rest =>
    rw [s.runUpdate_busy hline]
    have hpop : Strokes scope s _ := s.pop_sameButMarks.strokes
    have hminds := ht.tasks t (hline ▸ List.mem_cons_self)
    exact hpop.trans (perform_strokes (hpop.filed ht.filed) fun h hh =>
      ⟨hpop.follows.minds h (hminds h hh), hw.covers _⟩)

/-- **Steps.**  Whatever happens to a session that is not at its end is a sequence of strokes,
as long as nobody submits tasks to it. -/
theorem step_strokes (ht : s.Tidy) (hw : scope.Wide) {a : Action} (ha : Within scope a) :
    Strokes scope s (s.step a).2 := by
  by_cases hwork : a = .runUpdate
  · subst hwork
    exact runUpdate_strokes ht hw
  · exact occurrence_strokes ht.filed hw ha hwork

/-- **Runs.**  A run is a sequence of strokes. -/
theorem run_strokes (ht : s.Tidy) (hw : scope.Wide) {actions : List Action}
    (ha : ∀ a ∈ actions, Within scope a) : Strokes scope s (s.run actions) := by
  induction actions generalizing s with
  | nil => exact .refl
  | cons a rest ih =>
    have hone := step_strokes ht hw (ha a List.mem_cons_self)
    exact hone.trans (ih (hone.tidy ht) fun b hm => ha b (List.mem_cons_of_mem a hm))

/-- A manager that starts has nothing to do yet. -/
theorem start_tidy {w : World} {settings : Settings} (h : start w settings = .ok s) :
    s.Tidy := by
  refine ⟨start_filed h, fun t ht => ?_⟩
  rw [start_view h] at ht
  exact absurd ht List.not_mem_nil

end Session
end Provisioning
