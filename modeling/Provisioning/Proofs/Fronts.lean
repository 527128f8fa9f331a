import Provisioning.Proofs.Steps

/-! # What is queued, and how records age

Whatever is not work leaves the callbacks alone, raises the counter of a record with every
change of its properties, and keeps the marks but those of a consumer that went away.  What it
queues shows records as they stand at the end of the step.  So a generation that a task has
captured is one that the record had between two steps.
-/
namespace Provisioning

open Relation (ReflTransGen)

namespace Task

/-- What a task has captured of records. -/
def snapshots : Task → List Snapshot
  | .deliver h g p => [⟨h, some p, g⟩]
  | .attach _ _ snapshot => snapshot.toList
  | .attachFactory _ _ members => members
  | .retract .. => []
  | .relocate .. => []

/-- Whom a task is for, if it is for one consumer alone. -/
def consumer? : Task → Option Consumer
  | .attach c .. => some c
  | .attachFactory c .. => some c
  | .deliver .. => none
  | .retract .. => none
  | .relocate .. => none

/-- What a task brings was captured before, or is read from the record as it stands. -/
theorem Brings.snapshot_or {t : Task} {v : View} {h : Handle} {c : Consumer} {g : Nat}
    {p : Properties} (hb : t.Brings v h c g p) :
    (⟨h, some p, g⟩ ∈ t.snapshots ∧ (v.record h).deliveredTo c.service.id g = false) ∨
      ((v.record h).counter = g ∧ (v.record h).properties = some p) := by
  cases t with
  | deliver =>
    obtain ⟨rfl, rfl, rfl, -, hn⟩ := hb
    exact Or.inl ⟨List.mem_cons_self, hn⟩
  | relocate =>
    obtain ⟨rfl, hg, hp, -, -⟩ := hb
    exact Or.inr ⟨hg, hp⟩
  | attach =>
    obtain ⟨rfl, rfl, hn⟩ := hb
    exact Or.inl ⟨List.mem_cons_self, hn⟩
  | attachFactory =>
    obtain ⟨rfl, hm, hn⟩ := hb
    exact Or.inl ⟨hm, hn⟩
  | retract => exact hb.elim

/-- Whom a task brings something is registered in the directory, or the one it is for. -/
theorem Brings.known {t : Task} {v : View} {h : Handle} {c : Consumer} {g : Nat}
    {p : Properties} (hb : t.Brings v h c g p) :
    c ∈ v.directory.consumers ∨ t.consumer? = some c := by
  cases t with
  | deliver =>
    obtain ⟨-, -, -, hc, -⟩ := hb
    exact Or.inl (Target.mem_resolve.mp hc).1
  | relocate =>
    obtain ⟨-, -, -, hc, -⟩ := hb
    exact Or.inl (Target.mem_resolve.mp hc).1
  | attach =>
    obtain ⟨rfl, -, -⟩ := hb
    exact Or.inr rfl
  | attachFactory =>
    obtain ⟨rfl, -, -⟩ := hb
    exact Or.inr rfl
  | retract => exact hb.elim

/-- What a task speaks of is there: its records are, and what it retracts was deleted. -/
structure Refers (v : View) (t : Task) : Prop where
  captured : ∀ m ∈ t.snapshots, m.record < v.records.length
  relocated : ∀ h former, t = .relocate h former → h < v.records.length
  retracted : ∀ h owner, t = .retract h owner → (v.record h).deleted = true

theorem Refers.mono {t : Task} {v v' : View} (ht : t.Refers v)
    (hl : v.records.length ≤ v'.records.length)
    (hd : ∀ h, (v.record h).deleted = true → (v'.record h).deleted = true) : t.Refers v' :=
  ⟨fun m hm => Nat.lt_of_lt_of_le (ht.captured m hm) hl,
    fun h former he => Nat.lt_of_lt_of_le (ht.relocated h former he) hl,
    fun h owner he => hd h (ht.retracted h owner he)⟩

/-- A first delivery is addressed to a consumer of the kind that its records are for. -/
def Addressed (v : View) : Task → Prop
  | .attach c _ _ => c.kind = .single
  | .attachFactory c _ members =>
    c.kind = .factory ∧ ∀ m ∈ members, (v.record m.record).target.kind = .factory
  | _ => True

theorem Addressed.mono {t : Task} {v v' : View} (ha : t.Addressed v) (ht : t.Refers v)
    (htarget : ∀ h < v.records.length, (v'.record h).target = (v.record h).target) :
    t.Addressed v' := by
  cases t with
  | attachFactory c f members =>
    refine ⟨ha.1, fun m hm => ?_⟩
    rw [htarget _ (ht.captured m hm)]
    exact ha.2 m hm
  | deliver | retract | relocate | attach => exact ha

theorem Addressed.of_records {t : Task} {v v' : View} (ha : t.Addressed v)
    (hr : v'.records = v.records) : t.Addressed v' := by
  have hrec : ∀ h, v'.record h = v.record h := by
    intro h
    unfold View.record
    rw [hr]
  cases t with
  | attachFactory c f members => exact ⟨ha.1, fun m hm => (hrec _).symm ▸ ha.2 m hm⟩
  | deliver | retract | relocate | attach => exact ha

/-- What a task brings is one of the records that it speaks of. -/
theorem Brings.lt {t : Task} {v : View} {h : Handle} {c : Consumer} {g : Nat} {p : Properties}
    (hb : t.Brings v h c g p) (ht : t.Refers v) : h < v.records.length := by
  cases t with
  | deliver =>
    obtain ⟨rfl, rfl, rfl, -⟩ := hb
    exact ht.captured _ List.mem_cons_self
  | relocate =>
    obtain ⟨rfl, -⟩ := hb
    exact ht.relocated _ _ rfl
  | attach =>
    obtain ⟨rfl, rfl, -⟩ := hb
    exact ht.captured _ List.mem_cons_self
  | attachFactory =>
    obtain ⟨rfl, hm, -⟩ := hb
    exact ht.captured _ hm
  | retract => exact hb.elim

end Task

namespace Action

/-- The consumer that an action announces. -/
def greeted : Action → Option Consumer
  | .consumerRegistered c => some c
  | _ => none

/-- The service that an action has the records forget. -/
def forgotten : Action → Option Nat
  | .consumerWithdrawn service => some service
  | _ => none

/-- Whether an action neither is work nor brings work of its own. -/
def isQuiet : Action → Bool
  | .submit _ | .runUpdate | .shutdown => false
  | _ => true

end Action

namespace View

variable {v v' v'' : View} {greeted : Option Consumer} {forgotten : Option Nat}

/-- Whether a snapshot shows a record as it stands. -/
def Shows (v : View) (m : Snapshot) : Prop :=
  m.record < v.records.length ∧ m = .of m.record (v.record m.record)

/-- Records only age: none is lost, and each change of the properties is a generation. -/
structure Ages (v v' : View) : Prop where
  length : v.records.length ≤ v'.records.length
  counter : ∀ h < v.records.length, (v.record h).counter ≤ (v'.record h).counter
  properties : ∀ h < v.records.length, (v'.record h).counter = (v.record h).counter →
    (v'.record h).properties = (v.record h).properties

theorem Ages.refl (v : View) : v.Ages v :=
  ⟨Nat.le_refl _, fun _ _ => Nat.le_refl _, fun _ _ _ => rfl⟩

theorem Ages.trans (h : v.Ages v') (h' : v'.Ages v'') : v.Ages v'' where
  length := Nat.le_trans h.length h'.length
  counter := fun i hi =>
    Nat.le_trans (h.counter i hi) (h'.counter i (Nat.lt_of_lt_of_le hi h.length))
  properties := by
    intro i hi he
    -- the counter was the same on the way, too
    have h₁ := h.counter i hi
    have h₂ := h'.counter i (Nat.lt_of_lt_of_le hi h.length)
    rw [h'.properties i (Nat.lt_of_lt_of_le hi h.length) (by omega),
      h.properties i hi (by omega)]

/-- Nobody is called, nothing is changed, and what is queued shows records as they stand. -/
structure Quiet (greeted : Option Consumer) (forgotten : Option Nat) (v v' : View) : Prop where
  calls : v'.calls = v.calls
  access : v'.access = v.access
  length : v.records.length ≤ v'.records.length
  counter : ∀ h < v.records.length, (v'.record h).counter = (v.record h).counter
  properties : ∀ h < v.records.length, (v'.record h).properties = (v.record h).properties
  marks : ∀ h < v.records.length, ∀ id, forgotten ≠ some id →
    (v'.record h).watermark? id = (v.record h).watermark? id
  tasks : ∀ t ∈ v'.waiting, t ∈ v.waiting ∨
    ((∀ m ∈ t.snapshots, v'.Shows m) ∧ ∀ c, t.consumer? = some c → greeted = some c)

namespace Quiet

theorem refl (v : View) : Quiet greeted forgotten v v :=
  ⟨rfl, rfl, Nat.le_refl _, fun _ _ => rfl, fun _ _ => rfl, fun _ _ _ _ => rfl,
    fun _ h => Or.inl h⟩

theorem trans (h : Quiet greeted forgotten v v') (h' : Quiet greeted forgotten v' v'') :
    Quiet greeted forgotten v v'' := by
  have hlt : ∀ i, i < v.records.length → i < v'.records.length :=
    fun i hi => Nat.lt_of_lt_of_le hi h.length
  refine ⟨h'.calls.trans h.calls, h'.access.trans h.access, Nat.le_trans h.length h'.length,
    fun i hi => (h'.counter i (hlt i hi)).trans (h.counter i hi),
    fun i hi => (h'.properties i (hlt i hi)).trans (h.properties i hi),
    fun i hi id hn => (h'.marks i (hlt i hi) id hn).trans (h.marks i hi id hn), ?_⟩
  intro t ht
  rcases h'.tasks t ht with ht | ht
  · rcases h.tasks t ht with ht | ⟨hs, hc⟩
    · exact Or.inl ht
    · -- what was shown before is shown still
      refine Or.inr ⟨fun m hm => ?_, hc⟩
      obtain ⟨hl, he⟩ := hs m hm
      refine ⟨Nat.lt_of_lt_of_le hl h'.length, he.trans ?_⟩
      unfold Snapshot.of
      rw [h'.counter _ hl, h'.properties _ hl]
  · exact Or.inr ht

/-- A record is marked or bound anew, and a task without snapshots may be queued. -/
theorem of_change {h : Handle} {f : Record → Record}
    (hcontent : ∀ r : Record, (f r).counter = r.counter ∧ (f r).properties = r.properties)
    (hmarks : ∀ (r : Record) id, forgotten ≠ some id → (f r).watermark? id = r.watermark? id) :
    Quiet greeted forgotten v (v.change h f) where
  calls := rfl
  access := rfl
  length := Nat.le_of_eq (v.length_change h f).symm
  counter := fun i _ => v.record_change_of_eq (fun r => (hcontent r).1) h i
  properties := fun i _ => v.record_change_of_eq (fun r => (hcontent r).2) h i
  marks := fun i _ id hn =>
    v.record_change_of_eq (q := fun r => r.watermark? id) (fun r => hmarks r id hn) h i
  tasks := fun _ ht => Or.inl ht

theorem of_enqueue {t : Task} (hs : ∀ m ∈ t.snapshots, v.Shows m)
    (hc : ∀ c, t.consumer? = some c → greeted = some c) :
    Quiet greeted forgotten v (v.enqueue t) := by
  rw [enqueue_eq]
  refine ⟨rfl, rfl, Nat.le_refl _, fun _ _ => rfl, fun _ _ => rfl, fun _ _ _ _ => rfl, ?_⟩
  intro t' ht
  dsimp only at ht
  split at ht
  · rcases List.mem_append.mp ht with ht | ht
    · exact Or.inl ht
    · rw [List.mem_singleton.mp ht]
      exact Or.inr ⟨hs, hc⟩
  · exact Or.inl ht

end Quiet

theorem Extends.quiet {admits : Record → Prop} (he : Extends admits v v') :
    Quiet greeted forgotten v v' where
  calls := he.calls
  access := he.access
  length := he.length_le
  counter := fun _ hi => by rw [he.record_eq hi]
  properties := fun _ hi => by rw [he.record_eq hi]
  marks := fun _ hi _ _ => by rw [he.record_eq hi]
  tasks := fun _ ht => Or.inl (he.waiting ▸ ht)

theorem Greeting.quiet {c : Consumer} {identity : String} (hg : Greeting c identity v v')
    (hv : v.Filed) : Quiet (some c) forgotten v v' := by
  cases hg with
  | single kind =>
    refine .of_enqueue (fun m hm => ?_) fun c' hc => hc
    obtain ⟨h, hh, rfl⟩ := Option.map_eq_some_iff.mp (Option.mem_toList.mp hm)
    exact ⟨(hv.held _ h hh).1, rfl⟩
  | members kind sound complete =>
    refine .of_enqueue (fun m hm => ?_) fun c' hc => hc
    obtain ⟨pid, h, hh, rfl, -⟩ := sound m hm
    exact ⟨(hv.held pid h hh).1, rfl⟩
  | unlisted => exact .refl v

theorem Greetings.quiet {admits : Record → Prop} {c : Consumer} {identities : List String}
    (hg : Greetings admits c identities v v') (hv : v.Filed) :
    Quiet (some c) forgotten v v' := by
  induction hg with
  | done => exact .refl _
  | next hl hgreet _ ih =>
    have hf := hl.filed hv
    exact (hl.extends.quiet.trans (hgreet.quiet hf)).trans (ih (hgreet.filed hf))

theorem Forgets.quiet {service : Nat} (ho : Forgets service v v') :
    Quiet greeted (some service) v v' := by
  cases ho with
  | forget =>
    refine .of_change (fun _ => ⟨rfl, rfl⟩) fun r id hn => ?_
    rw [r.watermark?_forget, if_neg fun he => hn (by rw [he])]

theorem Release.quiet {location : String} (hr : Release location v v') :
    Quiet greeted forgotten v v' := by
  cases hr with
  | release =>
    refine Quiet.trans (.of_change (fun r => ?_) fun r id _ => ?_)
      (.of_enqueue (fun m hm => absurd hm List.not_mem_nil) fun c hc => by cases hc)
    · rw [r.release_eq]
      exact ⟨rfl, rfl⟩
    · rw [r.release_eq]
      rfl

theorem quiet_of_steps {r : View → View → Prop}
    (hstep : ∀ v v', r v v' → Quiet greeted forgotten v v') (hr : ReflTransGen r v v') :
    Quiet greeted forgotten v v' := by
  induction hr with
  | refl => exact .refl v
  | tail _ hlast ih => exact ih.trans (hstep _ _ hlast)

/-- What every action but work does: nobody is called, records age, and what is queued shows
records as they stand afterwards. -/
structure Front (greeted : Option Consumer) (forgotten : Option Nat) (v v' : View) : Prop where
  calls : v'.calls = v.calls
  access : v'.access = v.access
  ages : v.Ages v'
  marks : ∀ h < v.records.length, ∀ id, forgotten ≠ some id →
    (v'.record h).watermark? id = (v.record h).watermark? id
  tasks : ∀ t ∈ v'.waiting, t ∈ v.waiting ∨
    ((∀ m ∈ t.snapshots, v'.Shows m) ∧ ∀ c, t.consumer? = some c → greeted = some c)

theorem Quiet.front (h : Quiet greeted forgotten v v') : Front greeted forgotten v v' :=
  ⟨h.calls, h.access, ⟨h.length, fun i hi => Nat.le_of_eq (h.counter i hi).symm,
    fun i hi _ => h.properties i hi⟩, h.marks, h.tasks⟩

/-- A change of one record that is a generation, or leaves the properties alone. -/
theorem front_of_change {h : Handle} {f : Record → Record}
    (hage : ∀ r : Record, r.counter ≤ (f r).counter ∧
      ((f r).counter = r.counter → (f r).properties = r.properties))
    (hmarks : ∀ r : Record, (f r).watermarks = r.watermarks) :
    Front greeted forgotten v (v.change h f) := by
  refine ⟨rfl, rfl, ⟨Nat.le_of_eq (v.length_change h f).symm, fun i _ => ?_, fun i _ he => ?_⟩,
    fun i _ id _ => ?_, fun t ht => Or.inl ht⟩
  · rw [record_change]
    split
    · next hi => rw [hi.1]; exact (hage _).1
    · exact Nat.le_refl _
  · rw [record_change] at he ⊢
    split
    · next hi =>
      rw [if_pos hi, hi.1] at he
      rw [hi.1]
      exact (hage _).2 he
    · rfl
  · refine v.record_change_of_eq (q := fun r => r.watermark? id) (fun r => ?_) h i
    unfold Record.watermark?
    rw [hmarks]

theorem Front.enqueue (hf : Front greeted forgotten v v') {t : Task}
    (hs : ∀ m ∈ t.snapshots, v'.Shows m) (hc : t.consumer? = none) :
    Front greeted forgotten v (v'.enqueue t) := by
  have hq : Quiet greeted forgotten v' (v'.enqueue t) :=
    .of_enqueue hs fun c h => by rw [hc] at h; cases h
  refine ⟨hq.calls.trans hf.calls, hq.access.trans hf.access, hf.ages.trans hq.front.ages,
    fun i hi id hn => ?_, fun t' ht => ?_⟩
  · rw [hq.marks i (Nat.lt_of_lt_of_le hi hf.ages.length) id hn]
    exact hf.marks i hi id hn
  · have hkeep : ∀ m, v'.Shows m → (v'.enqueue t).Shows m := by
      intro m hm
      rw [enqueue_eq]
      exact hm
    rcases hq.tasks t' ht with ht | ht
    · exact (hf.tasks t' ht).imp_right fun h => ⟨fun m hm => hkeep m (h.1 m hm), h.2⟩
    · exact Or.inr ht

theorem Amendment.front (ha : Amendment v v') (hv : v.Filed) :
    Front greeted forgotten v v' := by
  cases ha with
  | @commit h p cached =>
    have hf : Front greeted forgotten v (v.change h fun r => r.commit p) :=
      front_of_change (fun r => ⟨Nat.le_succ _, fun he => absurd he (Nat.succ_ne_self _)⟩)
        fun _ => rfl
    refine hf.enqueue (fun m hm => ?_) rfl
    have hlt := (hv.held _ h cached).1
    rw [List.mem_singleton.mp hm]
    refine ⟨by rw [length_change]; exact hlt, ?_⟩
    dsimp only
    rw [record_change_self _ hlt]
    rfl
  | @discard h =>
    have hf : Front greeted forgotten v (v.change h fun r => { r with deleted := true }) :=
      front_of_change (fun r => ⟨Nat.le_refl _, fun _ => rfl⟩) fun _ => rfl
    have hf' : Front greeted forgotten v ({ v.change h fun r => { r with deleted := true } with
        cached := v.cached.erase (v.record h).pid } : View) :=
      ⟨hf.calls, hf.access, ⟨hf.ages.length, hf.ages.counter, hf.ages.properties⟩, hf.marks,
        hf.tasks⟩
    exact hf'.enqueue (fun m hm => absurd hm List.not_mem_nil) rfl
  | settle => exact front_of_change (fun r => ⟨Nat.le_succ _, fun _ => rfl⟩) fun _ => rfl
  | @resettle h location =>
    have hf : Front greeted forgotten v (v.change h fun r => r.relocate location) :=
      front_of_change (fun r => ⟨Nat.le_succ _, fun _ => rfl⟩) fun _ => rfl
    exact hf.enqueue (fun m hm => absurd hm List.not_mem_nil) rfl

/-- A step is a front step, a task that was submitted, or work and no more. -/
theorem Deal.front_or {admits : Record → Prop} {a : Action} (hd : Deal admits a v v')
    (hv : v.Filed) :
    Front a.greeted a.forgotten v v' ∨ (∃ t, a = .submit t) ∨
      a.isQuiet = false ∧ ∃ accepting w, ReflTransGen Work { v with accepting } w ∧
        ∃ cached rosters, v' = { w with cached, rosters } := by
  cases hd with
  | nothing => exact Or.inl (Quiet.refl v).front
  | @call _ _ v₁ _ administrative lookups amended =>
    left
    have hq : Quiet a.greeted a.forgotten v v₁ := lookups.extends.quiet
    rcases amended with rfl | amended
    · exact hq.front
    · have hf : Front a.greeted a.forgotten v₁ v' := amended.front (lookups.filed hv)
      refine ⟨hf.calls.trans hq.calls, hf.access.trans hq.access, hq.front.ages.trans hf.ages,
        fun i hi id hn => ?_, fun t ht => ?_⟩
      · rw [hf.marks i (Nat.lt_of_lt_of_le hi hq.length) id hn]
        exact hq.marks i hi id hn
      · exact (hf.tasks t ht).imp_left fun h => lookups.extends.waiting ▸ h
  | register greetings => exact Or.inl (greetings.quiet hv).front
  | withdraw forgotten =>
    exact Or.inl (quiet_of_steps (fun _ _ h => h.quiet) forgotten).front
  | uninstall released =>
    exact Or.inl (quiet_of_steps (fun _ _ h => h.quiet) released).front
  | @submit t => exact Or.inr (Or.inl ⟨t, rfl⟩)
  | around | extend =>
    have hage := Ages.refl v
    exact Or.inl ⟨rfl, rfl, ⟨hage.length, hage.counter, hage.properties⟩, fun _ _ _ _ => rfl,
      fun _ h => Or.inl h⟩
  | work hw =>
    exact Or.inr (Or.inr ⟨rfl, v.accepting, v', .single hw, v'.cached, v'.rosters, rfl⟩)
  | stop works => exact Or.inr (Or.inr ⟨rfl, false, _, works, .empty, .empty, rfl⟩)

theorem Deal.front {admits : Record → Prop} {a : Action} (hd : Deal admits a v v')
    (hv : v.Filed) (hq : a.isQuiet = true) : Front a.greeted a.forgotten v v' := by
  rcases hd.front_or hv with hf | ⟨t, rfl⟩ | ⟨hn, -⟩
  · exact hf
  · cases hq
  · rw [hq] at hn
    cases hn

/-! ### Who is called, and about what -/

theorem lt_of_deleted {h : Handle} (hd : (v.record h).deleted = true) : h < v.records.length := by
  rcases Nat.lt_or_ge h v.records.length with hlt | hge
  · exact hlt
  · unfold record at hd
    rw [List.getElem?_eq_none hge] at hd
    cases hd

theorem mem_hear {target : Target} {c : Consumer} {p : Option Properties} {o : Option Occasion}
    {k : Call} (hk : k ∈ (v.hear target c p o).calls) :
    k ∈ v.calls ∨ (k.consumer = c ∧ k.occasion = o) := by
  rcases List.mem_append.mp hk with hk | hk
  · exact Or.inl hk
  · obtain ⟨m, -, rfl⟩ := Option.map_eq_some_iff.mp (Option.mem_toList.mp hk)
    exact Or.inr ⟨rfl, rfl⟩

/-- Whom a task calls, and about what, is there. -/
theorem called_hear {target : Target} {c : Consumer} {p : Option Properties}
    {o : Option Occasion} (hc : c ∈ v.directory.consumers)
    (ho : ∀ o', o = some o' → o'.record < v.records.length) :
    ∀ k ∈ (v.hear target c p o).calls, k ∈ v.calls ∨ (k.consumer ∈ v.directory.consumers ∧
      ∀ o, k.occasion = some o → o.record < v.records.length) := by
  intro k hk
  rcases mem_hear hk with hk | ⟨rfl, rfl⟩
  · exact Or.inl hk
  · exact Or.inr ⟨hc, ho⟩

end View

/-- Whom an effect calls, and about what, is there, if the task speaks of what is there. -/
theorem TaskEffect.called {t : Task} {v v' : View} (hd : TaskEffect t v v') (ht : t.Refers v)
    (hc : ∀ c, t.consumer? = some c → c ∈ v.directory.consumers) :
    ∀ k ∈ v'.calls, k ∈ v.calls ∨ (k.consumer ∈ v.directory.consumers ∧
      ∀ o, k.occasion = some o → o.record < v.records.length) := by
  cases hd with
  | bind | advance => exact fun k hk => Or.inl hk
  | strike _ filing =>
    obtain ⟨rosters, rfl⟩ := filing.exists_rosters
    exact fun k hk => Or.inl hk
  | serve sees brings =>
    refine View.called_hear (brings.known.elim id (hc _)) fun o ho => ?_
    cases ho
    exact brings.lt ht
  | revoke undeleted target =>
    refine View.called_hear (Target.mem_resolve.mp target).1 fun o ho => ?_
    cases ho
    exact ht.relocated _ _ rfl
  | retract target =>
    refine View.called_hear (Target.mem_resolve.mp target).1 fun o ho => ?_
    cases ho
    exact View.lt_of_deleted (ht.retracted _ _ rfl)
  | greet =>
    refine View.called_hear (hc _ rfl) fun o ho => ?_
    cases ho
  | greetEmpty =>
    refine View.called_hear (hc _ rfl) fun o ho => ?_
    cases ho
    exact ht.captured _ List.mem_cons_self

end Provisioning
