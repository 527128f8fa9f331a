import Provisioning.Proofs.Promises
import Provisioning.Proofs.Strokes

/-! # Members and those that leave

Between its first update and its deletion a member is listed by its factory, and after the deletion
it is still listed for as long as its retraction waits.  So who may be listed is a matter of the
records and of the waiting tasks alone: members with properties, and members that are leaving.
Nothing that happens loses one of them, but for the task that strikes a leaving member off.

The members that are there are never struck off with those that leave, although the names of both
are on one roster, as long as no member is made under the name of one that is leaving.
-/
namespace Provisioning

open Relation (ReflTransGen)

namespace View

/-- Whether a record of some kind is cached under a pid. -/
def Caches (v : View) (q : Record → Prop) (pid : String) : Prop :=
  ∃ h, v.cached.get? pid = some h ∧ q (v.record h)

/-- Whether a member of a factory that has properties is cached under a pid. -/
def HasActive (v : View) (f pid : String) : Prop :=
  v.Caches (fun r => r.factoryPid = some f ∧ r.properties ≠ none) pid

/-- Whether a factory may list a pid: that of a member with properties, or that of a member which
was deleted and is still to be struck off. -/
def Listable (v : View) (f pid : String) : Prop := v.HasActive f pid ∨ v.Fading pid f

/-- Members with properties are listed, and no member bears the name of one that is leaving. -/
structure Staffed (v : View) : Prop where
  filed : v.Filed
  accepting : v.accepting = true
  retracted : ∀ h owner, .retract h owner ∈ v.waiting → h < v.records.length
  listed : ∀ f pid, v.HasActive f pid → v.lists f pid = true
  unfading : ∀ f pid, v.HasMember f pid → ¬v.Fading pid f

/-- Whoever may be listed before may be listed afterwards. -/
def Carries (v v' : View) : Prop := ∀ f pid, v.Listable f pid → v'.Listable f pid

/-- The members are the same ones, with properties or without, and nobody else is leaving. -/
structure Calm (v v' : View) : Prop where
  cached : v'.cached = v.cached
  accepting : v'.accepting = v.accepting
  length : v'.records.length = v.records.length
  pid : ∀ h, (v'.record h).pid = (v.record h).pid
  factoryPid : ∀ h, (v'.record h).factoryPid = (v.record h).factoryPid
  properties : ∀ h, (v'.record h).properties = (v.record h).properties
  retracted : ∀ h owner, .retract h owner ∈ v'.waiting → .retract h owner ∈ v.waiting

variable {v v' v'' : View} {f pid : String}

theorem hasMember_iff : v.HasMember f pid ↔ v.Caches (fun r => r.factoryPid = some f) pid := Iff.rfl

theorem HasActive.member (h : v.HasActive f pid) : v.HasMember f pid := by
  obtain ⟨i, hc, hf, -⟩ := h
  exact ⟨i, hc, hf⟩

theorem Carries.refl (v : View) : v.Carries v := fun _ _ h => h

theorem Carries.trans (h : v.Carries v') (h' : v'.Carries v'') : v.Carries v'' :=
  fun f pid he => h' f pid (h f pid he)

/-! ### What leaves the members alone -/

theorem Alike.calm (h : v.Alike v') (hl : v'.records.length = v.records.length)
    (hw : ∀ h owner, .retract h owner ∈ v'.waiting → .retract h owner ∈ v.waiting) :
    v.Calm v' :=
  ⟨h.cached, h.accepting, hl, fun i => (h.content i).pid, fun i => (h.content i).factoryPid,
    fun i => (h.content i).properties, hw⟩

theorem calm_enqueue (v : View) {t : Task} (ht : ∀ h owner, t ≠ .retract h owner) :
    v.Calm (v.enqueue t) := by
  refine (alike_enqueue v t).calm ?_ fun h owner hm => ?_
  · rw [enqueue_eq]
  · obtain ⟨queued, hq, hall⟩ := v.waiting_enqueue t
    rw [hq] at hm
    exact (List.mem_append.mp hm).resolve_right fun hm => ht h owner (hall _ hm).symm

theorem Steady.calm (h : v.Steady v') : v.Calm v' := by
  refine Alike.calm ⟨h.cached, h.accepting, h.content⟩ h.length fun i owner hw => ?_
  rw [h.waiting] at hw
  exact hw

/-- The task that waits longest is taken. -/
theorem calm_pop {t : Task} {rest : List Task} (hw : v.waiting = t :: rest) :
    v.Calm { v with waiting := rest } := by
  refine Alike.calm ⟨rfl, rfl, fun _ => .refl _⟩ rfl fun i owner hm => ?_
  rw [hw]
  exact List.mem_cons_of_mem t hm

namespace Calm

theorem trans (h : v.Calm v') (h' : v'.Calm v'') : v.Calm v'' where
  cached := h'.cached.trans h.cached
  accepting := h'.accepting.trans h.accepting
  length := h'.length.trans h.length
  pid := fun i => (h'.pid i).trans (h.pid i)
  factoryPid := fun i => (h'.factoryPid i).trans (h.factoryPid i)
  properties := fun i => (h'.properties i).trans (h.properties i)
  retracted := fun i owner hm => h.retracted i owner (h'.retracted i owner hm)

theorem hasMember (h : v.Calm v') : v'.HasMember f pid ↔ v.HasMember f pid := by
  simp only [HasMember, h.cached, h.factoryPid]

theorem hasActive (h : v.Calm v') : v'.HasActive f pid ↔ v.HasActive f pid := by
  simp only [HasActive, Caches, h.cached, h.factoryPid, h.properties]

theorem fading (h : v.Calm v') (hf : v'.Fading pid f) : v.Fading pid f := by
  obtain ⟨i, owner, hw, hp, hfac⟩ := hf
  exact ⟨i, owner, h.retracted i owner hw, (h.pid i).symm.trans hp,
    (h.factoryPid i).symm.trans hfac⟩

theorem staffed (h : v.Calm v') (hv : v.Staffed) (hf : v'.Filed)
    (hl : ∀ f pid, v.HasMember f pid → v.lists f pid = true → v'.lists f pid = true) :
    v'.Staffed where
  filed := hf
  accepting := h.accepting.trans hv.accepting
  retracted := fun i owner hw => by
    rw [h.length]
    exact hv.retracted i owner (h.retracted i owner hw)
  listed := fun f pid ha => by
    have ha' := h.hasActive.mp ha
    exact hl f pid ha'.member (hv.listed f pid ha')
  unfading := fun f pid hm hfade => hv.unfading f pid (h.hasMember.mp hm) (h.fading hfade)

/-- As long as nobody is struck off, whoever may be listed stays so. -/
theorem carries (h : v.Calm v')
    (hw : ∀ i owner, .retract i owner ∈ v.waiting → .retract i owner ∈ v'.waiting) :
    v.Carries v' := by
  rintro f pid (ha | ⟨i, owner, hm, hp, hf⟩)
  · exact Or.inl (h.hasActive.mpr ha)
  · exact Or.inr ⟨i, owner, hw i owner hm, (h.pid i).trans hp, (h.factoryPid i).trans hf⟩

end Calm

/-- Whoever may be listed stays so when a task is taken, unless the task strikes it off. -/
theorem listable_pop {t : Task} {rest : List Task} (hw : v.waiting = t :: rest)
    (hl : v.Listable f pid) :
    View.Listable { v with waiting := rest } f pid ∨ ∃ i owner, t = .retract i owner ∧
      (v.record i).pid = pid ∧ (v.record i).factoryPid = some f := by
  rcases hl with ha | ⟨i, owner, hm, hp, hf⟩
  · exact Or.inl (Or.inl ((calm_pop hw).hasActive.mpr ha))
  · rw [hw] at hm
    rcases List.mem_cons.mp hm with rfl | hm
    · exact Or.inr ⟨i, owner, rfl, hp, hf⟩
    · exact Or.inl (Or.inr ⟨i, owner, hm, hp, hf⟩)

/-- What keeps the rosters keeps the listed members. -/
theorem lists_of_rosters (hr : v'.rosters = v.rosters) (f pid : String) :
    v'.lists f pid = v.lists f pid := by
  rw [lists, hr, lists]

/-- A task that strikes nobody off is queued. -/
theorem Staffed.enqueue (hv : v.Staffed) {t : Task} (ht : ∀ h owner, t ≠ .retract h owner) :
    (v.enqueue t).Staffed ∧ v.Carries (v.enqueue t) := by
  have hc := v.calm_enqueue ht
  refine ⟨hc.staffed hv (hv.filed.enqueue t) fun f pid _ hl => ?_, hc.carries fun i owner hw => ?_⟩
  · rw [lists_of_rosters (by rw [enqueue_eq])]
    exact hl
  · obtain ⟨queued, hq, -⟩ := v.waiting_enqueue t
    rw [hq]
    exact List.mem_append_left _ hw

/-- A record is changed in nothing that members are asked for. -/
theorem Staffed.change (hv : v.Staffed) {g : Record → Record} (hpid : ∀ r, (g r).pid = r.pid)
    (hfac : ∀ r, (g r).factoryPid = r.factoryPid) (hprop : ∀ r, (g r).properties = r.properties)
    (hdel : ∀ r, (g r).deleted = r.deleted) (h : Handle) :
    (v.change h g).Staffed ∧ v.Carries (v.change h g) := by
  have hc : v.Calm (v.change h g) :=
    ⟨rfl, rfl, v.length_change h g, v.record_change_of_eq hpid h, v.record_change_of_eq hfac h,
      v.record_change_of_eq hprop h, fun _ _ hw => hw⟩
  exact ⟨hc.staffed hv (hv.filed.change hpid hdel h) fun _ _ _ hl => hl,
    hc.carries fun _ _ hw => hw⟩

/-! ### Looking up -/

/-- What is cached is what was cached before, and the new record. -/
theorem caches_adopt (hv : v.Filed) {r : Record} (absent : v.cached.get? r.pid = none)
    {q : Record → Prop} :
    (v.adopt r).Caches q pid ↔ (pid = r.pid ∧ q r) ∨ v.Caches q pid := by
  unfold Caches
  by_cases he : pid = r.pid
  · subst he
    have hnew : (v.adopt r).record v.records.length = r := v.record_enroll_new r
    simp [cached_adopt, absent, hnew]
  · simp only [cached_adopt, he, if_false, false_and, false_or]
    refine exists_congr fun i => and_congr_right fun hc => ?_
    rw [show (v.adopt r).record i = v.record i from v.record_enroll_lt (hv.held pid i hc).1 r]

theorem fading_adopt (hv : v.Staffed) (r : Record) :
    (v.adopt r).Fading pid f ↔ v.Fading pid f := by
  refine exists_congr fun i => exists_congr fun owner => and_congr_right fun hw => ?_
  rw [show (v.adopt r).record i = v.record i from
    v.record_enroll_lt (hv.retracted i owner hw) r]

/-- A record without properties is added, which is none of those that are leaving. -/
theorem Staffed.adopt (hv : v.Staffed) {r : Record} (absent : v.cached.get? r.pid = none)
    (hr : r.Admissible v.Fading) :
    (v.adopt r).Staffed ∧ v.Carries (v.adopt r) ∧
      ∀ pid f, (v.adopt r).Fading pid f → v.Fading pid f := by
  have hactive : ∀ f pid, (v.adopt r).HasActive f pid ↔ v.HasActive f pid := fun f pid => by
    refine (caches_adopt hv.filed absent).trans (or_iff_right ?_)
    rintro ⟨-, -, hp⟩
    exact hp hr.blank.properties
  refine ⟨⟨hv.filed.adopt hr.blank.undeleted, hv.accepting, fun i owner hw => ?_,
    fun f pid ha => hv.listed f pid ((hactive f pid).mp ha), fun f pid hm hfade => ?_⟩,
    fun f pid => Or.imp (hactive f pid).mpr (fading_adopt hv r).mpr,
    fun pid f => (fading_adopt hv r).mp⟩
  · rw [length_adopt]
    exact Nat.lt_succ_of_lt (hv.retracted i owner hw)
  · rw [fading_adopt hv] at hfade
    rw [hasMember_iff, caches_adopt hv.filed absent] at hm
    rcases hm with ⟨rfl, hf⟩ | hm
    · exact hr.unfading f hf hfade
    · exact hv.unfading f pid hm hfade

/-- A roster that is filed loses no member. -/
theorem Staffed.file (hv : v.Staffed) (hf : Filing (fun f pid => ¬v.HasMember f pid) v v') :
    v'.Staffed ∧ v.Carries v' ∧ ∀ pid f, v'.Fading pid f → v.Fading pid f := by
  have hfiled := hf.filed hv.filed
  have hlists := hf.lists hv.filed
  obtain ⟨rosters, rfl⟩ := hf.exists_rosters
  have hc : v.Calm { v with rosters } :=
    ⟨rfl, rfl, rfl, fun _ => rfl, fun _ => rfl, fun _ => rfl, fun _ _ hw => hw⟩
  exact ⟨hc.staffed hv hfiled fun f pid hm hl =>
    (hlists f pid hl).resolve_right fun hno => hno hm, hc.carries fun _ _ hw => hw,
    fun _ _ => hc.fading⟩

/-- **Looking things up loses nobody.** -/
theorem Staffed.lookups {fading : String → String → Prop} (hv : v.Staffed)
    (hfad : ∀ pid f, v.Fading pid f → fading pid f)
    (hl : v.Lookups (Record.Admissible fading) v') :
    v'.Staffed ∧ v.Carries v' ∧ ∀ pid f, v'.Fading pid f → v.Fading pid f := by
  induction hl with
  | refl => exact ⟨hv, .refl v, fun _ _ h => h⟩
  | @tail v₁ v₂ _ hlast ih =>
    obtain ⟨hv₁, hcarries, hfade⟩ := ih
    have hone : v₂.Staffed ∧ v₁.Carries v₂ ∧ ∀ pid f, v₂.Fading pid f → v₁.Fading pid f := by
      cases hlast with
      | adopt absent _ admitted =>
        exact hv₁.adopt absent ⟨admitted.blank, fun f hf hx =>
          admitted.unfading f hf (hfad _ f (hfade _ f hx))⟩
      | file hf => exact hv₁.file hf
    exact ⟨hone.1, hcarries.trans hone.2.1, fun pid f hx => hfade pid f (hone.2.2 pid f hx)⟩

/-! ### Administrative changes -/

theorem fading_change {g : Record → Record} (hpid : ∀ r, (g r).pid = r.pid)
    (hfac : ∀ r, (g r).factoryPid = r.factoryPid) (h : Handle) :
    (v.change h g).Fading pid f ↔ v.Fading pid f := by
  refine exists_congr fun i => exists_congr fun owner => and_congr_right fun _ => ?_
  rw [v.record_change_of_eq hpid, v.record_change_of_eq hfac]

/-- A cached member has properties once they are committed. -/
theorem hasActive_commit (hv : v.Filed) {h : Handle} {p : Properties}
    (hc : v.cached.get? pid = some h) (hf : (v.record h).factoryPid = some f) :
    (v.change h fun r => r.commit p).HasActive f pid := by
  refine ⟨h, hc, ?_⟩
  rw [v.record_change_self (hv.held pid h hc).1]
  exact ⟨hf, Option.some_ne_none _⟩

/-- Properties are committed of a record that its factory lists by now. -/
theorem Staffed.commit (hv : v.Staffed) {h : Handle} {p : Properties}
    (cached : v.cached.get? (v.record h).pid = some h)
    (listed : ∀ f, (v.record h).factoryPid = some f → v.lists f (v.record h).pid = true) :
    (v.change h fun r => r.commit p).Staffed ∧ v.Carries (v.change h fun r => r.commit p) := by
  have hfac : ∀ i, ((v.change h fun r => r.commit p).record i).factoryPid =
      (v.record i).factoryPid := v.record_change_of_eq (f := fun r => r.commit p) (fun _ => rfl) h
  have hmember : ∀ f pid, (v.change h fun r => r.commit p).HasMember f pid ↔ v.HasMember f pid :=
    fun f pid => exists_congr fun i => and_congr_right fun _ => by rw [hfac]
  have hfading : ∀ pid f, (v.change h fun r => r.commit p).Fading pid f ↔ v.Fading pid f :=
    fun pid f => fading_change (g := fun r => r.commit p) (fun _ => rfl) (fun _ => rfl) h
  refine ⟨⟨hv.filed.change (f := fun r => r.commit p) (fun _ => rfl) (fun _ => rfl) h,
    hv.accepting, fun i owner hw => ?_, ?_, fun f pid hm hfade =>
      hv.unfading f pid ((hmember f pid).mp hm) ((hfading pid f).mp hfade)⟩,
    fun f pid => Or.imp ?_ (hfading pid f).mpr⟩
  · rw [length_change]
    exact hv.retracted i owner hw
  · rintro f pid ⟨i, hc, hf, hp⟩
    rw [hfac] at hf
    by_cases he : i = h
    · subst he
      have hown : (v.record i).pid = pid := (hv.filed.held pid i hc).2.1
      exact hown ▸ listed f hf
    · rw [v.record_change_ne he] at hp
      exact hv.listed f pid ⟨i, hc, hf, hp⟩
  · rintro ⟨i, hc, hf, hp⟩
    by_cases he : i = h
    · exact he ▸ hasActive_commit hv.filed hc hf
    · refine ⟨i, hc, ?_⟩
      rw [v.record_change_ne he]
      exact ⟨hf, hp⟩

/-- What is cached is what was cached before, but for the record that leaves. -/
theorem caches_expunge {q : Record → Prop} (hq : ∀ r : Record, q { r with deleted := true } = q r)
    (h : Handle) :
    (v.expunge h).Caches q pid ↔ pid ≠ (v.record h).pid ∧ v.Caches q pid := by
  unfold Caches
  simp only [cached_expunge, v.record_expunge_of_eq hq h]
  by_cases he : pid = (v.record h).pid
  · simp [he]
  · simp [he]

theorem fading_expunge (h : Handle) : (v.expunge h).Fading pid f ↔ v.Fading pid f := by
  have hchange : (v.change h fun r => { r with deleted := true }).Fading pid f ↔ v.Fading pid f :=
    fading_change (g := fun r => { r with deleted := true }) (fun _ => rfl) (fun _ => rfl) h
  exact hchange

/-- A record leaves the cache: of the members none is missed but its own. -/
theorem Staffed.expunge (hv : v.Staffed) {h : Handle}
    (cached : v.cached.get? (v.record h).pid = some h) :
    (v.expunge h).Staffed ∧ (∀ f, ¬(v.expunge h).HasMember f (v.record h).pid) ∧
      ∀ f pid, v.Listable f pid → (v.expunge h).Listable f pid ∨
        pid = (v.record h).pid ∧ (v.record h).factoryPid = some f := by
  have hactive : ∀ f pid, (v.expunge h).HasActive f pid ↔
      pid ≠ (v.record h).pid ∧ v.HasActive f pid := fun f pid => caches_expunge (fun _ => rfl) h
  have hmember : ∀ f pid, (v.expunge h).HasMember f pid ↔
      pid ≠ (v.record h).pid ∧ v.HasMember f pid := fun f pid =>
    caches_expunge (q := fun r => r.factoryPid = some f) (fun _ => rfl) h
  have hfiled := (Amendment.discard cached).filed hv.filed
  rw [enqueue_eq] at hfiled
  refine ⟨⟨⟨hfiled.held, hfiled.titled, hfiled.distinct⟩, hv.accepting, fun i owner hw => ?_,
    fun f pid ha => hv.listed f pid ((hactive f pid).mp ha).2, fun f pid hm hfade => ?_⟩,
    fun f hm => ((hmember f _).mp hm).1 rfl, fun f pid hl => ?_⟩
  · rw [length_expunge]
    exact hv.retracted i owner hw
  · exact hv.unfading f pid ((hmember f pid).mp hm).2 ((fading_expunge h).mp hfade)
  · rcases hl with ha | hfade
    · by_cases he : pid = (v.record h).pid
      · subst he
        obtain ⟨i, hc, hf, -⟩ := ha
        rw [cached] at hc
        cases hc
        exact Or.inr ⟨rfl, hf⟩
      · exact Or.inl (Or.inl ((hactive f pid).mpr ⟨he, ha⟩))
    · exact Or.inl (Or.inr ((fading_expunge h).mpr hfade))

/-- A record is leaving whose name no member bears. -/
theorem Staffed.retract (hv : v.Staffed) {h : Handle} (hlt : h < v.records.length)
    (hno : ∀ f, ¬v.HasMember f (v.record h).pid) (owner : Option String) :
    (v.enqueue (.retract h owner)).Staffed ∧ v.Carries (v.enqueue (.retract h owner)) ∧
      ∀ f, (v.record h).factoryPid = some f →
        (v.enqueue (.retract h owner)).Fading (v.record h).pid f := by
  have hfiled := hv.filed.enqueue (.retract h owner)
  rw [enqueue_of_accepting v hv.accepting] at hfiled ⊢
  refine ⟨⟨hfiled, hv.accepting, fun i owner' hw => ?_, hv.listed, ?_⟩, ?_, fun f hf => ?_⟩
  · rcases List.mem_append.mp hw with hw | hw
    · exact hv.retracted i owner' hw
    · cases List.mem_singleton.mp hw
      exact hlt
  · rintro f pid hm ⟨i, owner', hw, hp, hf⟩
    rcases List.mem_append.mp hw with hw | hw
    · exact hv.unfading f pid hm ⟨i, owner', hw, hp, hf⟩
    · cases List.mem_singleton.mp hw
      exact hno f (hp ▸ hm)
  · rintro f pid (ha | ⟨i, owner', hw, hp, hf⟩)
    · exact Or.inl ha
    · exact Or.inr ⟨i, owner', List.mem_append_left _ hw, hp, hf⟩
  · exact ⟨h, owner, List.mem_append_right _ List.mem_cons_self, rfl, hf⟩

/-- A member that is deleted is leaving. -/
theorem Staffed.discard (hv : v.Staffed) {h : Handle}
    (cached : v.cached.get? (v.record h).pid = some h) (owner : Option String) :
    ((v.expunge h).enqueue (.retract h owner)).Staffed ∧
      v.Carries ((v.expunge h).enqueue (.retract h owner)) := by
  obtain ⟨hv₁, hno, hcarries⟩ := hv.expunge cached
  have hpid : ((v.expunge h).record h).pid = (v.record h).pid :=
    v.record_expunge_of_eq (fun _ => rfl) h h
  have hfac : ((v.expunge h).record h).factoryPid = (v.record h).factoryPid :=
    v.record_expunge_of_eq (fun _ => rfl) h h
  have hlt : h < (v.expunge h).records.length := by
    rw [length_expunge]
    exact (hv.filed.held _ h cached).1
  obtain ⟨hv₂, hcarries', hfading⟩ := hv₁.retract hlt (hpid ▸ hno) owner
  refine ⟨hv₂, fun f pid he => ?_⟩
  rcases hcarries f pid he with he | ⟨rfl, hf⟩
  · exact hcarries' f pid he
  · exact Or.inr (hpid ▸ hfading f (hfac.trans hf))

/-- **A change of one record loses nobody.** -/
theorem Staffed.amendment (hv : v.Staffed) (ha : Amendment v v') :
    v'.Staffed ∧ v.Carries v' := by
  have hrelocate : ∀ (h : Handle) (location : Option String),
      (v.change h fun r => r.relocate location).Staffed ∧
        v.Carries (v.change h fun r => r.relocate location) := fun h location =>
    hv.change (g := fun r => r.relocate location) (fun _ => rfl) (fun _ => rfl) (fun _ => rfl)
      (fun _ => rfl) h
  cases ha with
  | commit cached listed =>
    obtain ⟨hv₁, hcarries⟩ := hv.commit cached listed
    obtain ⟨hv₂, hcarries'⟩ := hv₁.enqueue (t := .deliver _ _ _) fun _ _ he => by cases he
    exact ⟨hv₂, hcarries.trans hcarries'⟩
  | discard cached => exact hv.discard cached _
  | settle => exact hrelocate _ _
  | resettle =>
    obtain ⟨hv₁, hcarries⟩ := hrelocate _ _
    obtain ⟨hv₂, hcarries'⟩ := hv₁.enqueue (t := .relocate _ _) fun _ _ he => by cases he
    exact ⟨hv₂, hcarries.trans hcarries'⟩

/-! ### Hooks -/

theorem Staffed.greeting (hv : v.Staffed) {c : Consumer} {identity : String}
    (hg : Greeting c identity v v') : v'.Staffed ∧ v.Carries v' := by
  cases hg with
  | single => exact hv.enqueue fun _ _ he => by cases he
  | members => exact hv.enqueue fun _ _ he => by cases he
  | unlisted => exact ⟨hv, .refl v⟩

/-- Nobody is on the point of leaving after a greeting that was not before. -/
theorem Greeting.fading {c : Consumer} {identity : String} (hg : Greeting c identity v v')
    (hf : v'.Fading pid f) : v.Fading pid f := by
  cases hg with
  | single => exact (v.calm_enqueue fun _ _ he => by cases he).fading hf
  | members => exact (v.calm_enqueue fun _ _ he => by cases he).fading hf
  | unlisted => exact hf

theorem Staffed.greetings {fading : String → String → Prop} (hv : v.Staffed)
    (hfad : ∀ pid f, v.Fading pid f → fading pid f) {c : Consumer} {identities : List String}
    (hg : Greetings (Record.Admissible fading) c identities v v') :
    v'.Staffed ∧ v.Carries v' := by
  induction hg with
  | done => exact ⟨hv, .refl _⟩
  | next lookups greeting _ ih =>
    obtain ⟨hv₁, hcarries₁, hfade⟩ := hv.lookups hfad lookups
    obtain ⟨hv₂, hcarries₂⟩ := hv₁.greeting greeting
    obtain ⟨hv₃, hcarries₃⟩ := ih hv₂ fun pid f hx => hfad pid f (hfade pid f (greeting.fading hx))
    exact ⟨hv₃, (hcarries₁.trans hcarries₂).trans hcarries₃⟩

theorem Staffed.forgets (hv : v.Staffed) {service : Nat} (ho : Forgets service v v') :
    v'.Staffed ∧ v.Carries v' := by
  cases ho with
  | forget =>
    exact hv.change (g := fun r => r.forget service) (fun _ => rfl) (fun _ => rfl) (fun _ => rfl)
      (fun _ => rfl) _

theorem Staffed.release (hv : v.Staffed) {location : String} (hr : Release location v v') :
    v'.Staffed ∧ v.Carries v' := by
  cases hr with
  | release =>
    obtain ⟨hv₁, hcarries⟩ := hv.change (g := fun r => r.release location)
      (fun r => (r.sameContent_release _).pid) (fun r => (r.sameContent_release _).factoryPid)
      (fun r => (r.sameContent_release _).properties)
      (fun r => (r.sameContent_release _).deleted) _
    obtain ⟨hv₂, hcarries'⟩ := hv₁.enqueue (t := .relocate _ _) fun _ _ he => by cases he
    exact ⟨hv₂, hcarries.trans hcarries'⟩

theorem Staffed.steps {r : View → View → Prop}
    (hstep : ∀ v v', r v v' → v.Staffed → v'.Staffed ∧ v.Carries v') (hv : v.Staffed)
    (hr : ReflTransGen r v v') : v'.Staffed ∧ v.Carries v' := by
  induction hr with
  | refl => exact ⟨hv, .refl v⟩
  | tail _ hlast ih =>
    obtain ⟨hv', hcarries⟩ := hstep _ _ hlast ih.1
    exact ⟨hv', ih.2.trans hcarries⟩

/-! ### Work -/

/-- A task strikes off none but those that are leaving, and they are no members. -/
theorem Work.staffed (hw : Work v v') (hv : v.Staffed) : v'.Staffed := by
  cases hw with
  | @work t rest waiting effects =>
    have hcalm : v.Calm v' := (calm_pop waiting).trans effects.steady.calm
    have hfiled : ({ v with waiting := rest } : View).Filed :=
      ⟨hv.filed.held, hv.filed.titled, hv.filed.distinct⟩
    refine hcalm.staffed hv (effects.filed hfiled) fun f pid hm hl => ?_
    -- along the effects the records stay as they are, and with them whoever is leaving
    suffices h : ({ v with waiting := rest } : View).Steady v' ∧ v'.Filed ∧ v'.lists f pid = true
      from h.2.2
    refine effects.keep (K := fun u => ({ v with waiting := rest } : View).Steady u ∧ u.Filed ∧
      u.lists f pid = true) (fun u u' hd hu => ?_) ⟨.refl _, hfiled, hl⟩
    obtain ⟨hsteady, hfiledu, hlu⟩ := hu
    refine ⟨hsteady.trans hd.steady, TaskEffects.filed (.single hd) hfiledu, ?_⟩
    cases hd with
    | bind | serve | advance | revoke | retract | greet | greetEmpty => exact hlu
    | @strike _ _ h owner f' factory filing =>
      refine (filing.lists hfiledu f pid hlu).resolve_right ?_
      rintro ⟨rfl, rfl⟩
      have hcontent := hsteady.content h
      refine hv.unfading f _ hm ⟨h, owner, ?_, hcontent.pid.symm, ?_⟩
      · rw [waiting]
        exact List.mem_cons_self
      · exact hcontent.factoryPid.symm.trans factory

/-- **Deals keep the staff**, and lose nobody who may be listed; but for work, which strikes off
those that are leaving. -/
theorem Deal.staffed {fading : String → String → Prop} {a : Action}
    (hd : Deal (Record.Admissible fading) a v v') (hv : v.Staffed)
    (hfad : ∀ pid f, v.Fading pid f → fading pid f) (hsub : ∀ t, a ≠ .submit t)
    (hend : a ≠ .shutdown) : v'.Staffed ∧ (a ≠ .runUpdate → v.Carries v') := by
  have hsame : v'.Staffed ∧ v.Carries v' → v'.Staffed ∧ (a ≠ .runUpdate → v.Carries v') :=
    fun h => ⟨h.1, fun _ => h.2⟩
  cases hd with
  | nothing => exact hsame ⟨hv, .refl v⟩
  | call _ lookups amended =>
    obtain ⟨hv₁, hcarries, -⟩ := hv.lookups hfad lookups
    rcases amended with rfl | amended
    · exact hsame ⟨hv₁, hcarries⟩
    · obtain ⟨hv₂, hcarries'⟩ := hv₁.amendment amended
      exact hsame ⟨hv₂, hcarries.trans hcarries'⟩
  | register greetings => exact hsame (hv.greetings hfad greetings)
  | withdraw forgotten => exact hsame (hv.steps (fun _ _ ho hv => hv.forgets ho) forgotten)
  | uninstall released => exact hsame (hv.steps (fun _ _ hr hv => hv.release hr) released)
  | submit => exact absurd rfl (hsub _)
  | around | extend =>
    have hf := hv.filed
    exact hsame ⟨⟨⟨hf.held, hf.titled, hf.distinct⟩, hv.accepting, hv.retracted, hv.listed,
      hv.unfading⟩, fun _ _ h => h⟩
  | work hw => exact ⟨hw.staffed hv, fun hno => absurd rfl hno⟩
  | stop => exact absurd rfl hend

end View
end Provisioning
