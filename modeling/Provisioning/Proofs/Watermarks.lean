import Provisioning.Proofs.Repetition

/-! # How far a record counts as served

A record counts its changes, and it is marked with the generations that were served: one mark for
all consumers, and one for each of them.  The counter and the mark for all never fall, and the mark
for all stays below the counter whatever is submitted, because a generation that is still to come is
cut down to the counter before it is marked (`Record.advance`).

The mark of one consumer is not cut down (`Record.note`).  It stays below the counter as long as no
task brings a generation that is still to come, and the first such task that finds a consumer to
serve lifts the mark of that consumer above the counter.  No task that a session makes for itself
is of this kind; one that was submitted can be.
-/
namespace Provisioning

open Relation (ReflTransGen)

namespace Record

variable {r r' r'' : Record}

/-- A record that went on: nothing that it counts has fallen. -/
structure Matures (r r' : Record) : Prop where
  counter : r.counter ≤ r'.counter
  delivered : r.delivered ≤ r'.delivered
  bounded : r.delivered ≤ r.counter → r'.delivered ≤ r'.counter

theorem Matures.refl (r : Record) : r.Matures r := ⟨Nat.le_refl _, Nat.le_refl _, id⟩

theorem Matures.trans (h : r.Matures r') (h' : r'.Matures r'') : r.Matures r'' :=
  ⟨Nat.le_trans h.counter h'.counter, Nat.le_trans h.delivered h'.delivered,
    fun hb => h'.bounded (h.bounded hb)⟩

/-- A record that went on without being served. -/
structure Rests (r r' : Record) : Prop extends r.Matures r' where
  marks : ∀ service g, r'.watermark? service = some g → r.watermark? service = some g

theorem Rests.refl (r : Record) : r.Rests r := ⟨.refl r, fun _ _ h => h⟩

theorem Rests.trans (h : r.Rests r') (h' : r'.Rests r'') : r.Rests r'' :=
  ⟨h.toMatures.trans h'.toMatures, fun service g hg => h.marks service g (h'.marks service g hg)⟩

/-- A change that leaves what was delivered alone. -/
theorem rests_of_marks (counter : r.counter ≤ r'.counter) (delivered : r'.delivered = r.delivered)
    (marks : ∀ service g, r'.watermark? service = some g → r.watermark? service = some g) :
    r.Rests r' :=
  ⟨⟨counter, Nat.le_of_eq delivered.symm, fun hb => delivered ▸ Nat.le_trans hb counter⟩, marks⟩

theorem rests_bind (r : Record) (location : String) : r.Rests (r.bind location) :=
  rests_of_marks (Nat.le_of_eq (r.sameContent_bind location).counter.symm)
    (r.delivered_bind location) fun service _ h => r.watermark?_bind location service ▸ h

theorem rests_release (r : Record) (location : String) : r.Rests (r.release location) := by
  rw [r.release_eq]
  exact rests_of_marks (Nat.le_refl _) rfl fun _ _ h => h

theorem rests_relocate (r : Record) (location : Option String) : r.Rests (r.relocate location) :=
  rests_of_marks (Nat.le_succ _) rfl fun _ _ h => h

theorem rests_forget (r : Record) (service : Nat) : r.Rests (r.forget service) := by
  refine rests_of_marks (Nat.le_refl _) rfl fun service' g h => ?_
  rw [r.watermark?_forget] at h
  split at h
  · cases h
  · exact h

theorem matures_note (r : Record) (service g : Nat) : r.Matures (r.note service g) :=
  ⟨Nat.le_refl _, Nat.le_refl _, id⟩

/-- A generation that is still to come is cut down to the counter. -/
theorem rests_advance (r : Record) (g : Nat) : r.Rests (r.advance g) :=
  ⟨⟨Nat.le_refl _, Nat.le_max_left _ _, fun hb => Nat.max_le.mpr ⟨hb, Nat.min_le_right _ _⟩⟩,
    fun _ _ h => h⟩

theorem deliveredTo_note (r : Record) (service g : Nat) :
    (r.note service g).deliveredTo service g = true :=
  (r.note service g).deliveredTo_eq_true_iff.mpr (r.le_watermark?_note service g)

/-- Whoever counts as served stays so when another delivery is noted. -/
theorem deliveredTo_note_mono {service g : Nat} (h : r.deliveredTo service g = true)
    (service' g' : Nat) : (r.note service' g').deliveredTo service g = true := by
  obtain ⟨w, hw, hle⟩ := r.deliveredTo_eq_true_iff.mp h
  obtain ⟨w', hw', hle'⟩ : ∃ w', (r.note service' g').watermark? service = some w' ∧ w ≤ w' :=
    r.watermark?_note_mono hw
  exact (r.note service' g').deliveredTo_eq_true_iff.mpr ⟨w', hw', Nat.le_trans hle hle'⟩

theorem deliveredTo_bind (r : Record) (location : String) (service g : Nat) :
    (r.bind location).deliveredTo service g = r.deliveredTo service g := by
  unfold deliveredTo
  rw [r.watermark?_bind]

end Record

namespace View

variable {v v' v'' : View} {admits : Record → Prop}

/-- No record has gone back. -/
def Matures (v v' : View) : Prop := ∀ h, (v.record h).Matures (v'.record h)

/-- No record has gone back, and none was served. -/
def Rests (v v' : View) : Prop := ∀ h, (v.record h).Rests (v'.record h)

theorem Matures.refl (v : View) : v.Matures v := fun _ => .refl _

theorem Matures.trans (h : v.Matures v') (h' : v'.Matures v'') : v.Matures v'' :=
  fun i => (h i).trans (h' i)

theorem Rests.refl (v : View) : v.Rests v := fun _ => .refl _

theorem Rests.trans (h : v.Rests v') (h' : v'.Rests v'') : v.Rests v'' :=
  fun i => (h i).trans (h' i)

theorem Rests.matures (h : v.Rests v') : v.Matures v' := fun i => (h i).toMatures

theorem matures_change {f : Record → Record} (hf : ∀ r : Record, r.Matures (f r)) (h : Handle) :
    v.Matures (v.change h f) := by
  intro i
  rw [record_change]
  split
  · next hi => exact hi.1 ▸ hf _
  · exact .refl _

theorem rests_change {f : Record → Record} (hf : ∀ r : Record, r.Rests (f r)) (h : Handle) :
    v.Rests (v.change h f) := by
  intro i
  rw [record_change]
  split
  · next hi => exact hi.1 ▸ hf _
  · exact .refl _

theorem Rests.enqueue (h : v.Rests v') (t : Task) : v.Rests (v'.enqueue t) := by
  intro i
  rw [record_enqueue]
  exact h i

/-! ### What is not work -/

theorem Extends.rests (he : Extends admits v v') : v.Rests v' := by
  intro h
  rcases Nat.lt_or_ge h v.records.length with hlt | hge
  · rw [he.record_eq hlt]
    exact .refl _
  · rw [record_of_length_le hge]
    refine ⟨⟨Nat.zero_le _, Nat.zero_le _, fun _ => ?_⟩, fun service g hg => ?_⟩
    · rcases Nat.lt_or_ge h v'.records.length with hlt' | hge'
      · rw [(he.record_new hge hlt').1.delivered]
        exact Nat.zero_le _
      · exact Nat.le_of_eq (by rw [record_of_length_le hge'])
    · rw [he.watermark?_new hge] at hg
      cases hg

theorem Amendment.rests (ha : Amendment v v') : v.Rests v' := by
  cases ha with
  | commit =>
    refine (rests_change (fun r => ?_) _).enqueue _
    exact Record.rests_of_marks (Nat.le_succ _) rfl fun _ _ h => h
  | discard =>
    refine Rests.enqueue ?_ _
    have hf (r : Record) : r.Rests { r with deleted := true } :=
      Record.rests_of_marks (Nat.le_refl _) rfl fun _ _ h => h
    exact fun i => rests_change hf _ i
  | settle => exact rests_change (fun r => r.rests_relocate _) _
  | resettle => exact (rests_change (fun r => r.rests_relocate _) _).enqueue _

theorem Greeting.rests {c : Consumer} {identity : String} (hg : Greeting c identity v v') :
    v.Rests v' := by
  cases hg with
  | single | members => exact (Rests.refl v).enqueue _
  | unlisted => exact .refl v

theorem Greetings.rests {c : Consumer} {identities : List String}
    (hg : Greetings admits c identities v v') : v.Rests v' := by
  induction hg with
  | done => exact .refl _
  | next lookups greeting _ ih => exact (lookups.extends.rests.trans greeting.rests).trans ih

theorem Forgets.rests {service : Nat} (ho : Forgets service v v') : v.Rests v' := by
  cases ho with
  | forget => exact rests_change (fun r => r.rests_forget service) _

theorem Release.rests {location : String} (hr : Release location v v') : v.Rests v' := by
  cases hr with
  | release => exact (rests_change (fun r => r.rests_release location) _).enqueue _

theorem rests_of_steps {R : View → View → Prop} (hstep : ∀ v v', R v v' → v.Rests v')
    (hr : ReflTransGen R v v') : v.Rests v' :=
  keep_of_steps (K := v.Rests) (fun _ _ h hv => hv.trans (hstep _ _ h)) hr (.refl v)

/-- Nobody is served but by work. -/
theorem Deal.rests {a : Action} (hd : Deal admits a v v') (hu : a ≠ .runUpdate)
    (hs : a ≠ .shutdown) : v.Rests v' := by
  cases hd with
  | nothing => exact .refl v
  | call _ lookups amended =>
    rcases amended with rfl | amended
    · exact lookups.extends.rests
    · exact lookups.extends.rests.trans amended.rests
  | register greetings => exact greetings.rests
  | withdraw forgotten => exact rests_of_steps (fun _ _ h => h.rests) forgotten
  | uninstall released => exact rests_of_steps (fun _ _ h => h.rests) released
  | submit => exact (Rests.refl v).enqueue _
  | around | extend => exact Rests.refl v
  | work => exact absurd rfl hu
  | stop => exact absurd rfl hs

end View

/-! ### Work -/

theorem TaskEffect.matures {t : Task} {v v' : View} (hd : TaskEffect t v v') : v.Matures v' := by
  cases hd with
  | bind => exact View.matures_change (fun r => (r.rests_bind _).toMatures) _
  | serve => exact View.matures_change (v := v.hear _ _ _ _) (fun r => r.matures_note _ _) _
  | revoke =>
    exact View.matures_change (v := v.hear _ _ _ _) (fun r => (r.rests_forget _).toMatures) _
  | advance => exact View.matures_change (fun r => (r.rests_advance _).toMatures) _
  | strike _ filing =>
    obtain ⟨rosters, rfl⟩ := filing.exists_rosters
    exact .refl v
  | retract | greet | greetEmpty => exact .refl v

theorem TaskEffects.matures {t : Task} {v v' : View} (hd : TaskEffects t v v') : v.Matures v' :=
  hd.keep (K := v.Matures) (fun _ _ h hv => hv.trans h.matures) (.refl v)

namespace View

variable {v v' : View} {admits : Record → Prop}

theorem Work.matures (hw : Work v v') : v.Matures v' := by
  cases hw with
  | work _ effects => exact effects.matures

theorem works_matures (hw : ReflTransGen Work v v') : v.Matures v' :=
  keep_of_steps (K := v.Matures) (fun _ _ h hv => hv.trans h.matures) hw (.refl v)

theorem Deal.matures {a : Action} (hd : Deal admits a v v') : v.Matures v' := by
  by_cases hu : a = .runUpdate
  · subst hu
    cases hd with
    | nothing | extend => exact .refl v
    | call administrative => cases administrative
    | work hw => exact hw.matures
  by_cases hs : a = .shutdown
  · subst hs
    cases hd with
    | nothing | extend => exact .refl v
    | call administrative => cases administrative
    | stop works => exact fun h => works_matures works h
  exact (hd.rests hu hs).matures

end View

/-! ### Marks of single consumers -/

/-- No consumer is marked with a generation that is still to come. -/
def View.Bounded (v : View) : Prop :=
  ∀ h service g, (v.record h).watermark? service = some g → g ≤ (v.record h).counter

namespace View

variable {v v' : View}

theorem Bounded.le (hb : v.Bounded) {h : Handle} {service g : Nat}
    (hd : (v.record h).deliveredTo service g = true) : g ≤ (v.record h).counter := by
  obtain ⟨w, hw, hle⟩ := (v.record h).deliveredTo_eq_true_iff.mp hd
  exact Nat.le_trans hle (hb h service w hw)

theorem Rests.bounded (hr : v.Rests v') (hb : v.Bounded) : v'.Bounded := fun h service g hg =>
  Nat.le_trans (hb h service g ((hr h).marks service g hg)) (hr h).counter

theorem Bounded.note (hb : v.Bounded) {h : Handle} {service g : Nat}
    (hg : h < v.records.length → g ≤ (v.record h).counter) :
    (v.change h fun r => r.note service g).Bounded := by
  intro i service' g' hm
  have hc : ((v.change h fun r => r.note service g).record i).counter = (v.record i).counter :=
    v.record_change_of_eq (fun r => (r.sameContent_note service g).counter) h i
  rw [hc]
  rw [record_change] at hm
  split at hm
  · next hi =>
    obtain ⟨rfl, hlt⟩ := hi
    rw [Record.watermark?_note] at hm
    split at hm
    · cases hw : (v.record i).watermark? service with
      | none =>
        rw [hw] at hm
        cases hm
        exact hg hlt
      | some w =>
        rw [hw] at hm
        cases hm
        exact Nat.max_le.mpr ⟨hg hlt, hb i service w hw⟩
    · exact hb i service' g' hm
  · exact hb i service' g' hm

end View

/-- An effect that serves nobody ahead of the counter leaves the marks below it. -/
theorem TaskEffect.bounded {t : Task} {v v' : View} (hd : TaskEffect t v v')
    (captured : ∀ m ∈ t.snapshots, m.generation ≤ (v.record m.record).counter)
    (hb : v.Bounded) : v'.Bounded := by
  cases hd with
  | bind => exact (View.rests_change (fun r => r.rests_bind _) _).bounded hb
  | @serve _ _ h c g p sees brings =>
    have hg : g ≤ (v.record h).counter := by
      rcases brings.snapshot_or with ⟨hm, -⟩ | ⟨he, -⟩
      · exact captured _ hm
      · exact Nat.le_of_eq he.symm
    exact View.Bounded.note (v := v.hear _ _ _ _) hb fun _ => hg
  | advance => exact (View.rests_change (fun r => r.rests_advance _) _).bounded hb
  | revoke =>
    exact (View.rests_change (v := v.hear _ _ _ _) (fun r => r.rests_forget _) _).bounded hb
  | strike _ filing =>
    obtain ⟨rosters, rfl⟩ := filing.exists_rosters
    exact hb
  | retract | greet | greetEmpty => exact hb

theorem TaskEffects.bounded {t : Task} {v v' : View} (hd : TaskEffects t v v')
    (captured : ∀ m ∈ t.snapshots, m.generation ≤ (v.record m.record).counter)
    (hb : v.Bounded) : v'.Bounded := by
  refine (hd.keep (K := fun w => w.Bounded ∧ v.Steady w) (fun w w' heffect hw => ?_)
    ⟨hb, .refl v⟩).1
  refine ⟨heffect.bounded (fun m hm => ?_) hw.1, hw.2.trans heffect.steady⟩
  rw [(hw.2.content m.record).counter]
  exact captured m hm

/-- What serving consumers keeps: whoever counts as served stays so. -/
structure View.Furthers (v v' : View) : Prop extends v.Steady v' where
  served : ∀ h service g, (v.record h).deliveredTo service g = true →
    (v'.record h).deliveredTo service g = true

namespace View

variable {v v' v'' : View}

theorem Furthers.refl (v : View) : v.Furthers v := ⟨.refl v, fun _ _ _ h => h⟩

theorem Furthers.trans (h : v.Furthers v') (h' : v'.Furthers v'') : v.Furthers v'' :=
  ⟨h.toSteady.trans h'.toSteady,
    fun i service g hd => h'.served i service g (h.served i service g hd)⟩

/-- Marks that are in bounds after serving were so before. -/
theorem Furthers.bounded (h : v.Furthers v') (hb : v'.Bounded) : v.Bounded := by
  intro i service g hg
  rw [← (h.content i).counter]
  exact hb.le (h.served i service g
    ((v.record i).deliveredTo_eq_true_iff.mpr ⟨g, hg, Nat.le_refl g⟩))

theorem bounded_advance_iff (v : View) (h : Handle) (g : Nat) :
    (v.change h fun r => r.advance g).Bounded ↔ v.Bounded := by
  have hc (i : Handle) : ((v.change h fun r => r.advance g).record i).counter =
      (v.record i).counter :=
    v.record_change_of_eq (fun r => (r.sameContent_advance g).counter) h i
  have hm (i : Handle) : ((v.change h fun r => r.advance g).record i).watermarks =
      (v.record i).watermarks :=
    v.record_change_of_eq (q := Record.watermarks) (f := fun r => r.advance g) (fun _ => rfl) h i
  unfold Bounded Record.watermark?
  simp only [hc, hm]

end View

namespace Session

variable (s : Session)

/-- A consumer that may see a record under the given owner, and a generation that is still to
come. -/
structure Forestalls (h : Handle) (owner : Option String) (c : Consumer) (g : Nat) : Prop where
  there : h < s.records.length
  undeleted : (s.record h).deleted = false
  ahead : (s.record h).counter < g
  visible : s.permits c.service.location owner = true

/-- A task finds a consumer to serve with a generation that is still to come. -/
def Outruns (s : Session) : Task → Prop
  | .deliver h g _ =>
    ∃ c ∈ s.view.targets h,
      s.Forestalls h ((s.bindFirst h (s.view.targets h)).record h).owner c g
  | .attach c _ (some ⟨h, some _, g⟩) =>
    s.directory.isLive c.service = true ∧ s.Forestalls h (s.record h).owner c g
  | .attachFactory c _ members =>
    s.directory.isLive c.service = true ∧
      ∃ before m after, members = before ++ m :: after ∧ m.properties ≠ none ∧
        let s' := before.foldl (fun s' m => s'.attachMember c m) s
        s'.Forestalls m.record (s'.record m.record).owner c m.generation
  | _ => False

variable {s} {s' : Session} {h : Handle} {t : Target} {owner : Option String} {c : Consumer}
  {g : Nat} {p : Properties}

theorem Forestalls.absurd_of_le (hf : s.Forestalls h owner c g) (hle : g ≤ (s.record h).counter) :
    False :=
  Nat.not_lt.mpr hle hf.ahead

theorem forestalls_iff_of_steady (hs : s.view.Steady s'.view) :
    s'.Forestalls h owner c g ↔ s.Forestalls h owner c g := by
  have hlength : s'.records.length = s.records.length := hs.length
  have hdeleted : (s'.record h).deleted = (s.record h).deleted := (hs.content h).deleted
  have hcounter : (s'.record h).counter = (s.record h).counter := (hs.content h).counter
  have hpermits (location : String) : s'.permits location owner = s.permits location owner :=
    hs.permits location owner
  constructor
  · rintro ⟨there, undeleted, ahead, visible⟩
    exact ⟨hlength ▸ there, hdeleted ▸ undeleted, hcounter ▸ ahead, hpermits _ ▸ visible⟩
  · rintro ⟨there, undeleted, ahead, visible⟩
    exact ⟨hlength ▸ there, hdeleted ▸ undeleted, hcounter ▸ ahead, hpermits _ ▸ visible⟩

/-! ### Serving one consumer -/

theorem bind_furthers (s : Session) (h : Handle) (location : String) :
    s.view.Furthers (s.bind h location).view := by
  rw [view_bind]
  refine ⟨View.steady_change (fun r => r.sameContent_bind location) (fun r o ho => ?_) h,
    fun i service g hd => ?_⟩
  · rw [r.owner_bind, ho, Option.getD_some]
  · rw [View.record_change_of_eq (q := fun r => r.deliveredTo service g) _
      fun r => r.deliveredTo_bind location service g]
    exact hd

theorem bind_bounded (hb : s.view.Bounded) (h : Handle) (location : String) :
    (s.bind h location).view.Bounded := by
  rw [view_bind]
  exact (View.rests_change (fun r => r.rests_bind location) h).bounded hb

theorem serve_furthers (s : Session) (h : Handle) (t : Target) (c : Consumer) (g : Nat)
    (p : Properties) : s.view.Furthers (s.serve h t c g p).view := by
  rw [view_serve]
  refine ⟨(View.steady_hear _ _ _ _).trans
    (View.steady_change (fun r => r.sameContent_note _ _) (fun _ _ ho => ho) h),
    fun i service g' hd => ?_⟩
  rw [View.record_change]
  split
  · next hi => exact Record.deliveredTo_note_mono (hi.1 ▸ hd) _ _
  · exact hd

/-- Whoever is served counts as served. -/
theorem serve_bounded_iff (hb : s.view.Bounded) :
    (s.serve h t c g p).view.Bounded ↔ (h < s.records.length → g ≤ (s.record h).counter) := by
  constructor
  · intro hb' hlt
    have hcounter := ((s.serve_furthers h t c g p).content h).counter
    have hseen : ((s.serve h t c g p).view.record h).deliveredTo c.service.id g = true := by
      rw [view_serve, View.record_change_self _ hlt]
      exact Record.deliveredTo_note _ _ _
    exact Nat.le_trans (hb'.le hseen) (Nat.le_of_eq hcounter)
  · intro hg
    rw [view_serve]
    exact View.Bounded.note (v := s.view.hear _ _ _ _) hb hg

theorem offer_furthers (s : Session) (h : Handle) (t : Target) (owner : Option String) (g : Nat)
    (p : Properties) (c : Consumer) : s.view.Furthers (s.offer h t owner g p c).view := by
  unfold offer
  split
  · exact .refl _
  · split
    · exact s.serve_furthers h t c g p
    · exact .refl _

theorem offer_bounded_iff (hb : s.view.Bounded) (hdel : (s.record h).deleted = false) :
    (s.offer h t owner g p c).view.Bounded ↔ ¬s.Forestalls h owner c g := by
  unfold offer
  split
  · next hseen => exact iff_of_true hb fun hf => hf.absurd_of_le (hb.le hseen)
  · split
    · next hperm =>
      rw [serve_bounded_iff hb]
      refine ⟨fun hg hf => hf.absurd_of_le (hg hf.there),
        fun hn hlt => Nat.le_of_not_lt fun hg => ?_⟩
      exact hn ⟨hlt, hdel, hg, hperm⟩
    · next hperm => exact iff_of_true hb fun hf => hperm hf.visible

theorem offers_furthers (s : Session) (h : Handle) (t : Target) (owner : Option String) (g : Nat)
    (p : Properties) (targets : List Consumer) :
    s.view.Furthers (targets.foldl (fun s' c => s'.offer h t owner g p c) s).view := by
  induction targets generalizing s with
  | nil => exact .refl _
  | cons c rest ih => exact (s.offer_furthers h t owner g p c).trans (ih _)

theorem offers_bounded_iff (hb : s.view.Bounded) (hdel : (s.record h).deleted = false)
    (targets : List Consumer) :
    (targets.foldl (fun s' c => s'.offer h t owner g p c) s).view.Bounded ↔
      ∀ c ∈ targets, ¬s.Forestalls h owner c g := by
  induction targets generalizing s with
  | nil => exact iff_of_true hb fun c hc => absurd hc List.not_mem_nil
  | cons c rest ih =>
    have hoffer := s.offer_furthers h t owner g p c
    rw [List.foldl_cons, List.forall_mem_cons]
    by_cases hc : s.Forestalls h owner c g
    · -- the mark that is made now stays while the others are served
      refine iff_of_false (fun hb' => ?_) fun hall => hall.1 hc
      exact (offer_bounded_iff hb hdel).mp ((offers_furthers _ h t owner g p rest).bounded hb') hc
    · have hb' := (offer_bounded_iff (t := t) (p := p) hb hdel).mpr hc
      rw [ih hb' ((hoffer.content h).deleted.trans hdel)]
      simp only [forestalls_iff_of_steady hoffer.toSteady]
      exact ⟨fun hall => ⟨hc, hall⟩, fun hall => hall.2⟩

/-! ### Running one task -/

theorem bindFirst_furthers (s : Session) (h : Handle) (targets : List Consumer) :
    s.view.Furthers (s.bindFirst h targets).view := by
  cases targets with
  | nil => exact .refl _
  | cons c rest => exact s.bind_furthers h c.service.location

theorem bindFirst_bounded (hb : s.view.Bounded) (h : Handle) (targets : List Consumer) :
    (s.bindFirst h targets).view.Bounded := by
  cases targets with
  | nil => exact hb
  | cons c rest => exact bind_bounded hb h c.service.location

theorem deliver_bounded_iff (hb : s.view.Bounded)
    (hle : (s.record h).delivered ≤ (s.record h).counter) :
    (s.deliver h g p).view.Bounded ↔ ¬s.Outruns (.deliver h g p) := by
  unfold deliver
  dsimp only
  split
  · next hdel =>
    refine iff_of_true hb ?_
    rintro ⟨c, -, hf⟩
    rw [hf.undeleted] at hdel
    cases hdel
  · next hdel =>
    split
    · next hstale =>
      refine iff_of_true hb ?_
      rintro ⟨c, -, hf⟩
      exact hf.absurd_of_le (Nat.le_trans (of_decide_eq_true hstale) hle)
    · have hfurther := s.bindFirst_furthers h (s.view.targets h)
      have hundeleted : (s.record h).deleted = false := by simpa using hdel
      have hdel' : ((s.bindFirst h (s.view.targets h)).record h).deleted = false :=
        (hfurther.content h).deleted.trans hundeleted
      rw [view_change, View.bounded_advance_iff]
      refine (offers_bounded_iff (bindFirst_bounded hb h _) hdel' _).trans ?_
      simp only [forestalls_iff_of_steady hfurther.toSteady]
      exact ⟨fun hall ⟨c, hc, hf⟩ => hall c hc hf, fun hn c hc hf => hn ⟨c, hc, hf⟩⟩

theorem introduce_furthers (s : Session) (h : Handle) (t : Target) (c : Consumer) (g : Nat)
    (p : Properties) : s.view.Furthers (s.introduce h t c g p).view := by
  unfold introduce
  dsimp only
  split
  · exact .refl _
  · split
    · exact .refl _
    · split
      · exact (s.bind_furthers h _).trans (serve_furthers _ h t c g p)
      · exact .refl _

theorem introduce_bounded_iff (hb : s.view.Bounded) :
    (s.introduce h t c g p).view.Bounded ↔ ¬s.Forestalls h (s.record h).owner c g := by
  unfold introduce
  dsimp only
  split
  · next hdel =>
    refine iff_of_true hb fun hf => ?_
    rw [hf.undeleted] at hdel
    cases hdel
  · next hdel =>
    split
    · next hseen => exact iff_of_true hb fun hf => hf.absurd_of_le (hb.le hseen)
    · split
      · next hperm =>
        have hbind := s.bind_furthers h c.service.location
        have hlength : (s.bind h c.service.location).records.length = s.records.length :=
          hbind.length
        have hcounter : ((s.bind h c.service.location).record h).counter = (s.record h).counter :=
          (hbind.content h).counter
        rw [serve_bounded_iff (bind_bounded hb h c.service.location), hlength, hcounter]
        refine ⟨fun hg hf => hf.absurd_of_le (hg hf.there),
          fun hn hlt => Nat.le_of_not_lt fun hg => ?_⟩
        exact hn ⟨hlt, by simpa using hdel, hg, hperm⟩
      · next hperm => exact iff_of_true hb fun hf => hperm hf.visible

theorem introduceEmpty_bounded (hb : s.view.Bounded) {pid : String} :
    (s.introduceEmpty h pid c).view.Bounded := by
  unfold introduceEmpty
  dsimp only
  split
  · exact hb
  · split
    · rw [view_greet]
      exact bind_bounded hb h c.service.location
    · exact hb

theorem attach_bounded_iff (hb : s.view.Bounded) (pid : String) (snapshot : Option Snapshot) :
    (s.attach c pid snapshot).view.Bounded ↔ ¬s.Outruns (.attach c pid snapshot) := by
  unfold attach
  split
  · next hlive =>
    refine iff_of_true hb ?_
    match snapshot with
    | some ⟨h, some p, g⟩ =>
      rintro ⟨hl, -⟩
      rw [hl] at hlive
      cases hlive
    | some ⟨h, none, g⟩ => exact id
    | none => exact id
  · next hlive =>
    have hlive' : s.directory.isLive c.service = true := by simpa using hlive
    match snapshot with
    | some ⟨h, some p, g⟩ =>
      refine (introduce_bounded_iff hb).trans (not_congr ?_)
      exact ⟨fun hf => ⟨hlive', hf⟩, fun hf => hf.2⟩
    | some ⟨h, none, g⟩ => exact iff_of_true (introduceEmpty_bounded hb) id
    | none =>
      refine iff_of_true ?_ id
      dsimp only
      rw [view_greet]
      exact hb

theorem attachMember_furthers (s : Session) (c : Consumer) (m : Snapshot) :
    s.view.Furthers (s.attachMember c m).view := by
  unfold attachMember
  split
  · exact s.introduce_furthers _ _ c _ _
  · exact .refl _

theorem attachMember_bounded_iff (hb : s.view.Bounded) (c : Consumer) (m : Snapshot) :
    (s.attachMember c m).view.Bounded ↔
      ¬(m.properties ≠ none ∧ s.Forestalls m.record (s.record m.record).owner c m.generation) := by
  unfold attachMember
  split
  · next p hp =>
    refine (introduce_bounded_iff hb).trans (not_congr ?_)
    exact ⟨fun hf => ⟨by simp [hp], hf⟩, fun hf => hf.2⟩
  · next hp => exact iff_of_true hb fun hf => hf.1 hp

theorem attachMembers_furthers (s : Session) (c : Consumer) (members : List Snapshot) :
    s.view.Furthers (members.foldl (fun s' m => s'.attachMember c m) s).view := by
  induction members generalizing s with
  | nil => exact .refl _
  | cons m rest ih => exact (s.attachMember_furthers c m).trans (ih _)

/-- The first member that is ahead of its counter makes a mark that stays. -/
theorem attachMembers_bounded_iff (hb : s.view.Bounded) (c : Consumer) (members : List Snapshot) :
    (members.foldl (fun s' m => s'.attachMember c m) s).view.Bounded ↔
      ¬∃ before m after, members = before ++ m :: after ∧ m.properties ≠ none ∧
        let s' := before.foldl (fun s' m => s'.attachMember c m) s
        s'.Forestalls m.record (s'.record m.record).owner c m.generation := by
  induction members generalizing s with
  | nil => simpa using hb
  | cons m rest ih =>
    rw [List.foldl_cons]
    by_cases hm : m.properties ≠ none ∧
        s.Forestalls m.record (s.record m.record).owner c m.generation
    · refine iff_of_false (fun hb' => ?_) fun hn => hn ⟨[], m, rest, rfl, hm.1, hm.2⟩
      exact (attachMember_bounded_iff hb c m).mp ((attachMembers_furthers _ c rest).bounded hb') hm
    · rw [ih ((attachMember_bounded_iff hb c m).mpr hm)]
      refine not_congr ⟨?_, ?_⟩
      · rintro ⟨before, m', after, rfl, hp, hf⟩
        exact ⟨m :: before, m', after, rfl, hp, hf⟩
      · rintro ⟨_ | ⟨m₀, before⟩, m', after, he, hp, hf⟩
        · cases he
          exact absurd ⟨hp, hf⟩ hm
        · cases he
          exact ⟨before, m', after, rfl, hp, hf⟩

theorem attachFactory_bounded_iff (hb : s.view.Bounded) (f : String) (members : List Snapshot) :
    (s.attachFactory c members).view.Bounded ↔ ¬s.Outruns (.attachFactory c f members) := by
  unfold attachFactory
  split
  · next hlive =>
    refine iff_of_true hb ?_
    rintro ⟨hl, -⟩
    rw [hl] at hlive
    cases hlive
  · next hlive =>
    have hlive' : s.directory.isLive c.service = true := by simpa using hlive
    refine (attachMembers_bounded_iff hb c members).trans (not_congr ?_)
    exact ⟨fun hm => ⟨hlive', hm⟩, fun hm => hm.2⟩

/-- **One task.**  Where no mark is above its counter, a task lifts one above it exactly if it finds
a consumer to serve with a generation that is still to come. -/
theorem perform_bounded_iff (hb : s.view.Bounded)
    (hle : ∀ h, (s.record h).delivered ≤ (s.record h).counter) (t : Task) :
    (s.perform t).view.Bounded ↔ ¬s.Outruns t := by
  cases t with
  | deliver h g p => exact deliver_bounded_iff hb (hle h)
  | attach c pid snapshot => exact attach_bounded_iff hb pid snapshot
  | attachFactory c f members => exact attachFactory_bounded_iff hb f members
  | retract h owner =>
    refine iff_of_true ((s.retract_taskEffects h owner).bounded ?_ hb) id
    exact fun m hm => absurd hm List.not_mem_nil
  | relocate h former =>
    refine iff_of_true ((s.relocate_taskEffects h former).bounded ?_ hb) id
    exact fun m hm => absurd hm List.not_mem_nil

/-- A task that outruns its records was captured ahead of one of them. -/
theorem Outruns.captured {t : Task} (ho : s.Outruns t) :
    ∃ m ∈ t.snapshots, (s.record m.record).counter < m.generation := by
  match t with
  | .deliver i g p =>
    obtain ⟨c, -, hf⟩ := ho
    exact ⟨⟨i, some p, g⟩, List.mem_cons_self, hf.ahead⟩
  | .attach c pid (some ⟨i, some p, g⟩) => exact ⟨_, List.mem_cons_self, ho.2.ahead⟩
  | .attachFactory c f members =>
    obtain ⟨-, before, m, after, rfl, -, hf⟩ := ho
    refine ⟨m, List.mem_append_right _ List.mem_cons_self, ?_⟩
    have hcounter := ((s.attachMembers_furthers c before).content m.record).counter
    exact hcounter ▸ hf.ahead

end Session

/-! ### Runs -/

/-- What waits was submitted, or was captured when its records had come as far. -/
def View.Fed (sent : Task → Prop) (v : View) : Prop :=
  ∀ t ∈ v.waiting, sent t ∨ ∀ m ∈ t.snapshots, m.generation ≤ (v.record m.record).counter

namespace View

variable {v v' : View} {sent sent' : Task → Prop} {admits : Record → Prop}

theorem Fed.mono (hf : v.Fed sent) (hm : v.Matures v') (hs : ∀ t, sent t → sent' t)
    (hw : ∀ t ∈ v'.waiting, t ∈ v.waiting ∨ sent' t ∨ ∀ m ∈ t.snapshots, v'.Shows m) :
    v'.Fed sent' := by
  intro t ht
  rcases hw t ht with ht | hsent | hshows
  · refine (hf t ht).imp (hs t) fun hcap m hmem => ?_
    exact Nat.le_trans (hcap m hmem) (hm m.record).counter
  · exact Or.inl hsent
  · refine Or.inr fun m hmem => ?_
    exact Nat.le_of_eq (congrArg Snapshot.generation (hshows m hmem).2)

theorem works_fed (hw : ReflTransGen Work v v') (hf : v.Fed sent) : v'.Fed sent := by
  refine keep_of_steps (K := View.Fed sent) (fun v v' hwork hfed => ?_) hw hf
  refine hfed.mono hwork.matures (fun _ h => h) fun t ht => Or.inl ?_
  cases hwork with
  | work waiting effects =>
    rw [effects.steady.waiting] at ht
    exact waiting ▸ List.mem_cons_of_mem _ ht

theorem Deal.fed {a : Action} (hd : Deal admits a v v') (hv : v.Filed) (hf : v.Fed sent)
    (hs : ∀ t, sent t ∨ a = .submit t → sent' t) : v'.Fed sent' := by
  rcases hd.front_or hv with hfront | ⟨t, rfl⟩ | ⟨-, accepting, w, hw, cached, rosters, rfl⟩
  · refine hf.mono hd.matures (fun t ht => hs t (Or.inl ht)) fun t ht => ?_
    exact (hfront.tasks t ht).imp_right fun h => Or.inr h.1
  · refine hf.mono hd.matures (fun t ht => hs t (Or.inl ht)) fun t' ht => ?_
    cases hd with
    | nothing | extend => exact Or.inl ht
    | call administrative => cases administrative
    | submit =>
      rw [enqueue_eq] at ht
      dsimp only at ht
      split at ht
      · rcases List.mem_append.mp ht with ht | ht
        · exact Or.inl ht
        · exact Or.inr (Or.inl (hs t' (Or.inr (by rw [List.mem_singleton.mp ht]))))
      · exact Or.inl ht
  · have hfed : w.Fed sent := works_fed hw hf
    exact hfed.mono (fun _ => .refl _) (fun t ht => hs t (Or.inl ht)) fun t ht => Or.inl ht

end View

namespace Session

variable {s s₁ : Session} {actions : List Action}

/-- The sessions that a run passes through: after each action, and between the tasks that are run
when the session is shut down. -/
inductive Passes (s : Session) (actions : List Action) : Session → Prop
  | step {past : List Action} (here : past <+: actions) : Passes s actions (s.run past)
  | stop {past : List Action} (here : past ++ [.shutdown] <+: actions) (n : Nat) :
    Passes s actions (runUpdates n { s.run past with updates := (s.run past).updates.close })

theorem runUpdates_succ (n : Nat) (s : Session) :
    runUpdates (n + 1) s = (runUpdates n s).runUpdate := by
  induction n generalizing s with
  | zero => rfl
  | succ n ih => exact ih s.runUpdate

/-- Where a task is about to run, the run passes, and so it does after the task. -/
theorem Works.passes (hw : s.Works actions s₁) :
    s.Passes actions s₁ ∧ s.Passes actions s₁.runUpdate := by
  cases hw with
  | @step past here =>
    have hnext : (s.run past).runUpdate = s.run (past ++ [.runUpdate]) :=
      (s.run_concat past .runUpdate).symm
    rw [hnext]
    exact ⟨.step ((List.prefix_append _ _).trans here), .step here⟩
  | @stop past here n =>
    rw [← runUpdates_succ]
    exact ⟨.stop here n, .stop here (n + 1)⟩

theorem run_matures (hf : s.view.Filed) (actions : List Action) :
    s.view.Matures (s.run actions).view := by
  induction actions using List.reverseRecOn with
  | nil => exact .refl _
  | append_singleton past a ih =>
    rw [run_concat]
    exact ih.trans (step_deal (run_filed hf past) a).matures

theorem run_fed (hf : s.view.Filed) (hq : s.view.waiting = []) (actions : List Action) :
    (s.run actions).view.Fed fun t => .submit t ∈ actions := by
  induction actions using List.reverseRecOn with
  | nil =>
    intro t ht
    rw [run, hq] at ht
    exact absurd ht List.not_mem_nil
  | append_singleton past a ih =>
    rw [run_concat]
    refine (step_deal (run_filed hf past) a).fed (run_filed hf past) ih fun t ht => ?_
    rcases ht with ht | rfl
    · exact List.mem_append_left _ ht
    · exact List.mem_append_right _ List.mem_cons_self

theorem Passes.matures (hp : s.Passes actions s₁) (hf : s.view.Filed) :
    s.view.Matures s₁.view := by
  cases hp with
  | @step past here => exact run_matures hf past
  | @stop past here n =>
    refine (run_matures hf past).trans ?_
    exact fun h => View.works_matures (runUpdates_view { s.run past with
      updates := (s.run past).updates.close } n) h

theorem Works.fed (hw : s.Works actions s₁) (hf : s.view.Filed) (hq : s.view.waiting = []) :
    s₁.view.Fed fun t => .submit t ∈ actions := by
  obtain ⟨past, accepting, hpast, hworks⟩ := hw.exists_past
  refine View.works_fed hworks ?_
  exact (run_fed hf hq past).mono (fun _ => .refl _) (fun t ht => hpast.subset ht)
    fun t ht => Or.inl ht

/-- The worker takes up the task that waits longest. -/
def taken (s : Session) : Session := { s with updates := s.updates.pop }

theorem runUpdate_bounded (hb : s.view.Bounded)
    (hle : ∀ h, (s.record h).delivered ≤ (s.record h).counter)
    (hno : ∀ t, s.updates.waiting.head? = some t → ¬s.taken.Outruns t) :
    s.runUpdate.view.Bounded := by
  cases hw : s.view.waiting with
  | nil =>
    rw [s.runUpdate_idle hw]
    exact hb
  | cons t rest =>
    have hw' : s.updates.waiting = t :: rest := hw
    rw [s.runUpdate_busy hw]
    have hb' : s.taken.view.Bounded := hb
    exact (perform_bounded_iff hb' hle t).mpr (hno t (by rw [hw']; rfl))

/-- As long as no task outruns its records, the run passes through sessions in bounds only. -/
theorem Passes.bounded (hp : s.Passes actions s₁) (hf : s.view.Filed) (hb : s.view.Bounded)
    (hle : ∀ h, (s.record h).delivered ≤ (s.record h).counter)
    (hno : ∀ s₁ t, s.Works actions s₁ → s₁.updates.waiting.head? = some t →
      ¬s₁.taken.Outruns t) : s₁.view.Bounded := by
  have hwork {s₁ : Session} (hw : s.Works actions s₁) (hb₁ : s₁.view.Bounded) :
      s₁.runUpdate.view.Bounded :=
    runUpdate_bounded hb₁ (fun h => (hw.passes.1.matures hf h).bounded (hle h)) fun t => hno s₁ t hw
  have hstop {past : List Action} (here : past ++ [.shutdown] <+: actions)
      (hb' : (s.run past).view.Bounded) (n : Nat) :
      (runUpdates n { s.run past with updates := (s.run past).updates.close }).view.Bounded := by
    induction n with
    | zero => exact hb'
    | succ n ih =>
      rw [runUpdates_succ]
      exact hwork (.stop here n) ih
  have hstep (past : List Action) (here : past <+: actions) : (s.run past).view.Bounded := by
    induction past using List.reverseRecOn with
    | nil => exact hb
    | append_singleton past a ih =>
      have hb' := ih ((List.prefix_append _ _).trans here)
      rw [run_concat]
      by_cases hu : a = .runUpdate
      · subst hu
        exact hwork (.step here) hb'
      by_cases hs : a = .shutdown
      · subst hs
        show (s.run past).shutdown.view.Bounded
        rcases (s.run past).shutdown_view with he | he
        · rw [he]
          exact hb'
        · rw [he]
          exact hstop here hb' _
      exact ((step_deal (run_filed hf past) a).rests hu hs).bounded hb'
  cases hp with
  | step here => exact hstep _ here
  | stop here n => exact hstop here (hstep _ ((List.prefix_append _ _).trans here)) n

end Session

/-- A record that counts as served, to all or to one consumer, up to its counter at most. -/
structure Record.InBounds (r : Record) : Prop where
  delivered : r.delivered ≤ r.counter
  marks : ∀ service g, r.watermark? service = some g → g ≤ r.counter

/-- All records of a world are in bounds. -/
def World.InBounds (w : World) : Prop := ∀ r ∈ w.records, r.InBounds

namespace Session

variable {s : Session} {actions : List Action}

theorem start_inBounds {w : World} (hw : w.InBounds) {settings : Settings}
    (hs : start w settings = .ok s) (h : Handle) : (s.record h).InBounds := by
  have hrecords : s.records = w.records := congrArg View.records (start_view hs)
  unfold record World.record
  rw [hrecords]
  cases hr : w.records[h]? with
  | none => exact ⟨Nat.le_refl _, fun service g hg => by cases hg⟩
  | some r => exact hw r (List.mem_of_getElem? hr)

/-- **How far a record counts as served.**  Whatever is called, submitted and run in whatever order:
counters and the marks for all consumers never fall, and no mark for all is above its counter.  The
marks of single consumers stay below the counters throughout exactly if no task is run that finds a
consumer to serve with a generation that is still to come; and such a task was submitted. -/
theorem watermarks_bounded_iff {w : World} (hw : w.InBounds) {settings : Settings}
    (hs : start w settings = .ok s) (actions : List Action) :
    (∀ past, past <+: actions → ∀ h,
      ((s.run past).record h).counter ≤ ((s.run actions).record h).counter ∧
        ((s.run past).record h).delivered ≤ ((s.run actions).record h).delivered) ∧
    (∀ s₁, s.Passes actions s₁ → ∀ h, (s₁.record h).delivered ≤ (s₁.record h).counter) ∧
    ((∀ s₁, s.Passes actions s₁ → s₁.view.Bounded) ↔
      ∀ s₁ t, s.Works actions s₁ → s₁.updates.waiting.head? = some t → ¬s₁.taken.Outruns t) ∧
    ∀ s₁ t, s.Works actions s₁ → s₁.updates.waiting.head? = some t → s₁.taken.Outruns t →
      .submit t ∈ actions := by
  have hf := start_filed hs
  have hstart := start_inBounds hw hs
  have hdelivered : ∀ s₁, s.Passes actions s₁ → ∀ h,
      (s₁.record h).delivered ≤ (s₁.record h).counter :=
    fun s₁ hp h => (hp.matures hf h).bounded (hstart h).delivered
  refine ⟨?_, hdelivered, ⟨?_, ?_⟩, ?_⟩
  · rintro past ⟨more, rfl⟩ h
    have hm := run_matures (run_filed hf past) more h
    rw [run_append]
    exact ⟨hm.counter, hm.delivered⟩
  · intro hall s₁ t hwork hhead hout
    obtain ⟨hpass, hnext⟩ := hwork.passes
    obtain ⟨rest, hrest⟩ := List.head?_eq_some_iff.mp hhead
    have hafter : (s₁.taken.perform t).view.Bounded := by
      have := hall _ hnext
      rwa [s₁.runUpdate_busy hrest] at this
    exact (perform_bounded_iff (s := s₁.taken) (hall s₁ hpass) (hdelivered s₁ hpass) t).mp hafter
      hout
  · exact fun hno s₁ hp => hp.bounded hf (fun h => (hstart h).marks)
      (fun h => (hstart h).delivered) hno
  · intro s₁ t hwork hhead hout
    have hq : s.view.waiting = [] := by rw [start_view hs]
    obtain ⟨m, hm, hahead⟩ := hout.captured
    refine (hwork.fed hf hq t (List.mem_of_mem_head? hhead)).resolve_right fun hcap => ?_
    exact Nat.not_le.mpr hahead (hcap m hm)

/-- A generation that is still to come is submitted for a record which one consumer is served. -/
def premature : List Action :=
  [.around (.addConsumer .single "here" ["pid"] 0), .getOrCreate "pid" (some "here"),
    .update "pid" .empty, .runUpdate, .submit (.deliver 0 7 .empty), .runUpdate]

/-- The last task of `premature` outruns its record, and so it was submitted. -/
theorem watermarks_bounded_iff_premature :
    ∃ s s₁ t, World.InBounds {} ∧ start {} {} = .ok s ∧ s.Works premature s₁ ∧
      s₁.updates.waiting.head? = some t ∧ s₁.taken.Outruns t ∧ .submit t ∈ premature ∧
      ∃ s₂, s.Passes premature s₂ ∧ ¬s₂.view.Bounded := by
  have hw : World.InBounds {} := fun r hr => absurd hr List.not_mem_nil
  obtain ⟨s, hs⟩ : ∃ s, start {} {} = .ok s := ⟨_, rfl⟩
  obtain ⟨-, -, hiff, hsubmitted⟩ := watermarks_bounded_iff hw hs premature
  have hwork : s.Works premature (s.run (premature.take 5)) := .step List.prefix_rfl
  have hhead : (s.run (premature.take 5)).updates.waiting.head? = some (.deliver 0 7 .empty) := by
    cases hs
    rfl
  have hout : (s.run (premature.take 5)).taken.Outruns (.deliver 0 7 .empty) := by
    have hserved : ∃ c ∈ (s.run (premature.take 5)).taken.view.targets 0,
        (s.run (premature.take 5)).taken.permits c.service.location (some "here") = true := by
      cases hs
      exact ⟨_, List.mem_cons_self, by decide⟩
    obtain ⟨c, hc, hperm⟩ := hserved
    refine ⟨c, hc, ?_, ?_, ?_, ?_⟩
    · cases hs
      decide
    · cases hs
      decide
    · cases hs
      decide
    · have howner : (((s.run (premature.take 5)).taken.bindFirst 0
          ((s.run (premature.take 5)).taken.view.targets 0)).record 0).owner = some "here" := by
        cases hs
        decide
      rw [howner]
      exact hperm
  have hnot : ¬∀ s₂, s.Passes premature s₂ → s₂.view.Bounded :=
    fun hall => hiff.mp hall _ _ hwork hhead hout
  push Not at hnot
  exact ⟨s, _, _, hw, hs, hwork, hhead, hout, hsubmitted _ _ hwork hhead hout, hnot⟩

/-- The mark of the consumer is above the counter, and the update that follows counts as delivered
to it already: nobody is called, and the update counts as delivered to all. -/
theorem update_withheld_premature :
    ∃ s, start {} {} = .ok s ∧ ((s.run premature).record 0).counter = 1 ∧
      ((s.run premature).record 0).watermark? 1 = some 7 ∧
      let s' := s.run (premature ++ [.update "pid" (Table.put .empty "a" (.text "b")), .runUpdate])
      (s'.record 0).counter = 2 ∧ (s'.record 0).delivered = 2 ∧
        s'.calls.length = (s.run premature).calls.length ∧ s'.tally.stale = 1 ∧
        s'.permits "here" (s'.record 0).owner = true := by
  obtain ⟨s, hs⟩ : ∃ s, start {} {} = .ok s := ⟨_, rfl⟩
  refine ⟨s, hs, ?_⟩
  cases hs
  decide

end Session
end Provisioning
