import Provisioning.Proofs.Promises

/-! # Promises are kept by every call

Whatever is not work makes promises good in one of three ways.  New properties are queued for
everybody who may see them.  A change of the owner is queued for those who gain the record by it
and for those who lose it.  And a new consumer is greeted with all that is there for it.  All
else leaves alone what was promised.
-/
namespace Provisioning

open Relation (ReflTransGen)

/-- A record that moved on by at most one generation, and forgot nothing but marks. -/
structure Record.Revised (r r' : Record) : Prop where
  pid : r'.pid = r.pid
  factoryPid : r'.factoryPid = r.factoryPid
  delivered : r'.delivered = r.delivered
  deleted : r.deleted = true → r'.deleted = true
  marks : ∀ id w, r'.watermark? id = some w → r.watermark? id = some w
  content : (r'.counter = r.counter ∧ r'.properties = r.properties) ∨
    (r'.counter = r.counter + 1 ∧ (r.properties ≠ none → r'.properties ≠ none))

namespace Record

variable (r : Record)

theorem revised_commit (p : Properties) : r.Revised (r.commit p) :=
  ⟨rfl, rfl, rfl, id, fun _ _ hw => hw, Or.inr ⟨rfl, fun _ => Option.some_ne_none _⟩⟩

theorem revised_relocate (location : Option String) : r.Revised (r.relocate location) :=
  ⟨rfl, rfl, rfl, id, fun _ _ hw => hw, Or.inr ⟨rfl, id⟩⟩

theorem revised_delete : r.Revised { r with deleted := true } :=
  ⟨rfl, rfl, rfl, fun _ => rfl, fun _ _ hw => hw, Or.inl ⟨rfl, rfl⟩⟩

theorem revised_release (location : String) : r.Revised (r.release location) := by
  rw [r.release_eq]
  exact ⟨rfl, rfl, rfl, id, fun _ _ hw => hw, Or.inl ⟨rfl, rfl⟩⟩

theorem revised_forget (service : Nat) : r.Revised (r.forget service) := by
  refine ⟨rfl, rfl, rfl, id, fun id w hw => ?_, Or.inl ⟨rfl, rfl⟩⟩
  rw [watermark?_forget] at hw
  split at hw
  · cases hw
  · exact hw

end Record

namespace View

variable {H H' : History} {owed owed' : Consumer → String → Prop}
variable {late : Handle → Consumer → List Call → Prop}
variable {v v' : View} {h : Handle} {c : Consumer}

/-! ### Queueing -/

theorem Orderly.lasts_counter (hv : v.Orderly H) (hlt : h < v.records.length) :
    v.Lasts H h (v.record h).counter := by
  intro g hg hle
  rw [Nat.le_antisymm hle hg]
  exact hv.current h hlt

/-- A task is queued that fits, newer than those of its kind. -/
theorem Orderly.enqueue (hv : v.Orderly H) {t : Task} (ht : t.Sound H v)
    (hnew : ∀ h g p, t = .deliver h g p → (v.record h).delivered < g ∧
      ∀ g' p', .deliver h g' p' ∈ v.waiting → g' < g)
    (hfade : ∀ h owner, t = .retract h owner → ∀ h' f, v.Known h' →
      (v.record h).pid = (v.record h').pid → (v.record h').factoryPid = some f →
        (v.record h).factoryPid ≠ some f) : (v.enqueue t).Orderly H := by
  rw [enqueue_of_accepting v hv.accepting]
  have hmem : ∀ t', t' ∈ v.waiting ++ [t] ↔ t' ∈ v.waiting ∨ t' = t := by simp
  refine { hv with
    filed := ⟨hv.filed.held, hv.filed.titled, hv.filed.distinct⟩, sound := ?_, ordered := ?_,
    ahead := ?_, unfading := ?_ }
  · intro t' ht'
    rcases (hmem t').mp ht' with ht' | rfl
    · exact ⟨(hv.sound t' ht').recalls, (hv.sound t' ht').fits⟩
    · exact ⟨ht.recalls, ht.fits⟩
  · refine List.pairwise_append.mpr ⟨hv.ordered, List.pairwise_singleton _ _, ?_⟩
    intro t' ht' t'' ht'' i g p g' p' he he'
    rw [List.mem_singleton.mp ht''] at he'
    subst he
    exact (hnew i g' p' he').2 g p ht'
  · intro i g p ht'
    rcases (hmem _).mp ht' with ht' | rfl
    · exact hv.ahead i g p ht'
    · exact (hnew i g p rfl).1
  · rintro i f hk hf ⟨j, owner, ht', hp, hf'⟩
    rcases (hmem _).mp ht' with ht' | he
    · exact hv.unfading i f hk hf ⟨j, owner, ht', hp, hf'⟩
    · exact hfade j owner he.symm i f hk hp hf hf'

theorem Orderly.enqueue_quiet (hv : v.Orderly H) {t : Task} (ht : t.Sound H v)
    (hd : ∀ h g p, t ≠ .deliver h g p) (hr : ∀ h owner, t ≠ .retract h owner) :
    (v.enqueue t).Orderly H :=
  hv.enqueue ht (fun h g p he => absurd he (hd h g p)) fun h owner he => absurd he (hr h owner)

/-! ### Changing one record -/

theorem record_amend {f : Record → Record} {cached : ExactTable Handle}
    (hlt : h < v.records.length) :
    ({ v.change h f with cached } : View).record h = f (v.record h) :=
  v.record_change_self hlt f

theorem record_amend_ne {f : Record → Record} {cached : ExactTable Handle} {i : Handle}
    (hne : i ≠ h) : ({ v.change h f with cached } : View).record i = v.record i :=
  v.record_change_ne hne f

theorem grows_amend (hv : v.Orderly H) (hlt : h < v.records.length) {f : Record → Record}
    (hf : (v.record h).Revised (f (v.record h))) (cached : ExactTable Handle) :
    Grows H (H.revise h (f (v.record h))) v { v.change h f with cached } := by
  have hrec : ({ v.change h f with cached } : View).record h = f (v.record h) := record_amend hlt
  have hother : ∀ i, i ≠ h → ({ v.change h f with cached } : View).record i = v.record i :=
    fun i hi => record_amend_ne hi
  have hwritten : ∀ i g, g ≤ (v.record i).counter ∨ v.records.length ≤ i →
      H.revise h (f (v.record h)) i g = H i g := by
    intro i g hg
    by_cases he : i = h ∧ g = (f (v.record h)).counter
    · -- the generation was written down before, and the record has not changed
      obtain ⟨rfl, rfl⟩ := he
      rw [H.revise_self]
      rcases hf.content with ⟨hc, hp⟩ | ⟨hc, -⟩
      · rw [hc, hp]
        exact (hv.current i hlt).symm
      · rcases hg with hle | hge
        · omega
        · exact absurd hlt (Nat.not_lt.mpr hge)
    · exact if_neg he
  refine ⟨Nat.le_of_eq (v.length_change h f).symm, fun i hi => ?_, hwritten, fun i hi => ?_,
    fun i hi => ?_, fun i hd => ?_, fun i hi => ?_, fun i id w hw => ?_, fun _ hc => hc,
    Nat.le_refl _, rfl, rfl, rfl, rfl⟩
  all_goals by_cases he : i = h
  · subst he
    rw [hrec]
    exact hf.content.imp_right fun hx => ⟨hx.1, H.revise_self i _, hx.2⟩
  · rw [hother i he]
    exact Or.inl ⟨rfl, rfl⟩
  · subst he
    rw [hrec]
    exact ⟨hf.pid, hf.factoryPid⟩
  · rw [hother i he]
    exact ⟨rfl, rfl⟩
  · subst he
    rw [hrec]
    exact hf.delivered
  · rw [hother i he]
  · subst he
    rw [hrec]
    exact hf.deleted hd
  · rw [hother i he]
    exact hd
  · subst he
    exact absurd hlt (Nat.not_lt.mpr hi)
  · rw [hother i he, record_of_length_le hi]
    exact ⟨rfl, rfl⟩
  · subst he
    rw [hrec] at hw
    exact hf.marks id w hw
  · rw [hother i he] at hw
    exact hw

/-- One record is changed, and perhaps leaves the cache. -/
theorem Orderly.amend (hv : v.Orderly H) (hlt : h < v.records.length) {f : Record → Record}
    (hf : (v.record h).Revised (f (v.record h))) {cached : ExactTable Handle}
    (hcached : ∀ pid i, cached.get? pid = some i → v.cached.get? pid = some i)
    (filed : ({ v.change h f with cached } : View).Filed)
    (listed : ∀ g, (v.record h).factoryPid = some g → (f (v.record h)).properties ≠ none →
      v.Known h → v.lists g (v.record h).pid = true) :
    ({ v.change h f with cached } : View).Orderly (H.revise h (f (v.record h))) := by
  have hother : ∀ i, i ≠ h → ({ v.change h f with cached } : View).record i = v.record i :=
    fun i hi => record_amend_ne hi
  have hknown : ∀ i, ({ v.change h f with cached } : View).Known i →
      (({ v.change h f with cached } : View).record i).pid = (v.record i).pid → v.Known i := by
    intro i hk hp
    unfold Known at hk ⊢
    rw [hp] at hk
    exact hcached _ i hk
  refine hv.grows (grows_amend hv hlt hf cached) filed hv.wellKept ?_ ?_
  · -- the record itself is to be listed, and the others are as they were
    intro i g hk hg hp
    by_cases he : i = h
    · subst he
      rw [record_amend hlt] at hg hp ⊢
      rw [hf.pid]
      exact listed g (hf.factoryPid ▸ hg) hp
        (hknown i hk (by rw [record_amend hlt]; exact hf.pid))
    · have hr := hother i he
      rw [hr] at hg hp ⊢
      exact hv.listed i g (hknown i hk (by rw [hr])) hg hp
  · intro i g hk hg
    by_cases he : i = h
    · subst he
      rw [record_amend hlt] at hg ⊢
      rw [hf.pid]
      exact hv.unfading i g (hknown i hk (by rw [record_amend hlt]; exact hf.pid))
        (hf.factoryPid ▸ hg)
    · have hr := hother i he
      rw [hr] at hg ⊢
      exact hv.unfading i g (hknown i hk (by rw [hr])) hg

/-- One record is changed, and perhaps leaves the cache; a task may be queued for it. -/
structure Amends (h : Handle) (f : Record → Record) (v v' : View) : Prop where
  record : v'.record h = f (v.record h)
  other : ∀ i, i ≠ h → v'.record i = v.record i
  cached : ∀ pid i, v'.cached.get? pid = some i → v.cached.get? pid = some i
  directory : v'.directory = v.directory
  access : v'.access = v.access
  calls : v'.calls = v.calls
  waiting : ∀ t ∈ v.waiting, t ∈ v'.waiting

namespace Amends

variable {f : Record → Record}

theorem of_change (hlt : h < v.records.length) (f : Record → Record) {cached : ExactTable Handle}
    (hcached : ∀ pid i, cached.get? pid = some i → v.cached.get? pid = some i) :
    Amends h f v { v.change h f with cached } :=
  ⟨record_amend hlt, fun _ => record_amend_ne, hcached, rfl, rfl, rfl, fun _ ht => ht⟩

theorem change (hlt : h < v.records.length) (f : Record → Record) :
    Amends h f v (v.change h f) :=
  of_change hlt f fun _ _ hc => hc

theorem enqueue (ha : Amends h f v v') (t : Task) : Amends h f v (v'.enqueue t) := by
  rw [enqueue_eq]
  refine ⟨ha.record, ha.other, ha.cached, ha.directory, ha.access, ha.calls, fun t' ht => ?_⟩
  show t' ∈ if v'.accepting then v'.waiting ++ [t] else v'.waiting
  split
  · exact List.mem_append_left _ (ha.waiting t' ht)
  · exact ha.waiting t' ht

theorem known (ha : Amends h f v v') {i : Handle} (hp : (v'.record i).pid = (v.record i).pid)
    (hk : v'.Known i) : v.Known i := by
  unfold Known at hk ⊢
  rw [hp] at hk
  exact ha.cached _ i hk

theorem mark? (ha : Amends h f v v') (c : Consumer) :
    v'.mark? h c = (f (v.record h)).watermark? c.service.id := by
  rw [View.mark?, ha.record]

theorem spares (ha : Amends h f v v') {i : Handle} (hne : i ≠ h) : Spares i v v' :=
  ⟨ha.other i hne, ha.known (by rw [ha.other i hne]), ha.directory, ha.access, ha.calls,
    ha.waiting⟩

theorem permits (ha : Amends h f v v') (l : String) (o : Option String) :
    v'.permits l o = v.permits l o :=
  permits_of_access ha.access l o

theorem words (ha : Amends h f v v') (i : Handle) (c : Consumer) :
    v'.words i c = v.words i c := by
  unfold View.words
  rw [ha.calls]

theorem targets (ha : Amends h f v v') (hf : (v.record h).Revised (f (v.record h))) :
    v'.targets h = v.targets h := by
  unfold View.targets Record.target
  rw [ha.record, hf.pid, hf.factoryPid, ha.directory]

/-- What is promised of other records stands; what is promised of this one is to be shown. -/
theorem pledge (ha : Amends h f v v') (hv : v.Pledge H owed late)
    (ho : v'.Orderly (H.revise h (f (v.record h))))
    (hp : ∀ c, v'.Promised (H.revise h (f (v.record h))) h c owed)
    (hw : ∀ c, v'.Withheld h c)
    (hh : ∀ c, v'.Known h → c ∈ v.directory.consumers → v.directory.isLive c.service = true →
      v'.Heard (H.revise h (f (v.record h))) h c late) :
    v'.Pledge (H.revise h (f (v.record h))) owed late := by
  have hH : ∀ i, i ≠ h → ∀ g, H.revise h (f (v.record h)) i g = H i g :=
    fun i hne => H.revise_ne hne _
  refine ⟨ho, fun i c => ?_, fun i c => ?_, fun i c hk hc hl => ?_⟩
  · by_cases he : i = h
    · exact he ▸ hp c
    · exact (ha.spares he).promised (hH i he) (hv.promised i c)
  · by_cases he : i = h
    · exact he ▸ hw c
    · exact (ha.spares he).withheld (hv.withheld i c)
  · rw [ha.directory] at hc hl
    by_cases he : i = h
    · subst he
      exact hh c hk hc hl
    · exact (ha.spares he).heard (hH i he) (hv.heard i c ((ha.spares he).known hk) hc hl)

end Amends

theorem Grows.lasts (hg : Grows H H' v v') (hlt : h < v.records.length)
    (hp : (v'.record h).properties = (v.record h).properties) {g : Nat} (hl : v.Lasts H h g) :
    v'.Lasts H' h g := by
  intro g' hle hle'
  by_cases hold : g' ≤ (v.record h).counter
  · rw [hg.history h g' (Or.inl hold), hp]
    exact hl g' hle hold
  · rcases hg.step h hlt with ⟨hc, -⟩ | ⟨hc, hh, -⟩
    · omega
    · rw [show g' = (v'.record h).counter by omega]
      exact hh

/-- A record changes hands: what it holds stays, and so do the marks of live consumers.  Either the
owner is the same, or there was none before, or the change is queued for the consumers. -/
structure Rehomes (h : Handle) (f : Record → Record) (v v' : View) : Prop
    extends Amends h f v v' where
  inRange : h < v.records.length
  revised : (v.record h).Revised (f (v.record h))
  properties : (f (v.record h)).properties = (v.record h).properties
  marks : ∀ c ∈ v.directory.consumers, v.directory.isLive c.service = true →
    v'.mark? h c = v.mark? h c
  owner : (f (v.record h)).owner = (v.record h).owner ∨ (v.record h).owner = none ∨
    ∃ former, (v.record h).owner = some former ∧ .relocate h (some former) ∈ v'.waiting

namespace Rehomes

variable {f : Record → Record}

theorem lasts (hr : Rehomes h f v v') (hv : v.Orderly H) {g : Nat} (hl : v.Lasts H h g) :
    v'.Lasts (H.revise h (f (v.record h))) h g := by
  have hgrows := grows_amend hv hr.inRange hr.revised v.cached
  intro g' hg hle
  have hprop : (({ v.change h f with cached := v.cached } : View).record h).properties =
      (v.record h).properties := by
    rw [record_amend hr.inRange]
    exact hr.properties
  have hl' := hgrows.lasts hr.inRange hprop hl g' hg
  rw [record_amend hr.inRange] at hl'
  rw [hr.record] at hle ⊢
  exact hl' hle

theorem known (hr : Rehomes h f v v') (hk : v'.Known h) : v.Known h :=
  hr.toAmends.known (by rw [hr.record]; exact hr.revised.pid) hk

theorem mark_target (hr : Rehomes h f v v') (hc : c ∈ v.targets h) :
    v'.mark? h c = v.mark? h c := by
  obtain ⟨hmem, hlive, -⟩ := Target.mem_resolve.mp hc
  exact hr.marks c hmem hlive

/-- A consumer that may see the record now could see it before, or is reconsidered. -/
theorem promised (hr : Rehomes h f v v') (hv : v.Pledge H owed late) (c : Consumer) :
    v'.Promised (H.revise h (f (v.record h))) h c owed := by
  intro hk hc hperm hprop howed
  have hident : (f (v.record h)).target = (v.record h).target := by
    rw [Record.target, Record.target, hr.revised.pid, hr.revised.factoryPid]
  rw [hr.toAmends.targets hr.revised] at hc
  rw [hr.permits, hr.record] at hperm
  rw [hr.record, hr.properties] at hprop
  rw [hr.record, hident] at howed
  -- a promise that was given before is carried over
  have hcarry : v.permits c.service.location (v.record h).owner = true →
      (∃ w, v'.mark? h c = some w ∧ v'.Lasts (H.revise h (f (v.record h))) h w) ∨
        ∃ t ∈ v'.waiting, t.Promises (H.revise h (f (v.record h))) v' h c := by
    intro hbefore
    rcases hv.promised h c (hr.known hk) hc hbefore hprop howed with ⟨w, hw, hl⟩ | ⟨t, ht, hpr⟩
    · exact Or.inl ⟨w, (hr.mark_target hc).trans hw, hr.lasts hv.toOrderly hl⟩
    · exact Or.inr ⟨t, hr.waiting t ht,
        hpr.mono (hr.permits _) fun _ => hr.lasts hv.toOrderly⟩
  rcases hr.owner with he | hn | ⟨former, hformer, ht⟩
  · exact hcarry (he ▸ hperm)
  · exact hcarry (by rw [hn]; rfl)
  · by_cases hbefore : v.permits c.service.location (v.record h).owner = true
    · exact hcarry hbefore
    · refine Or.inr ⟨_, ht, rfl, ?_⟩
      rw [hr.permits, ← hformer]
      exact Bool.eq_false_iff.mpr hbefore

/-- A consumer that could see the record before may see it now, or is reconsidered. -/
theorem withheld (hr : Rehomes h f v v') (hv : v.Pledge H owed late) (c : Consumer) :
    v'.Withheld h c := by
  intro hk hc
  rw [hr.toAmends.targets hr.revised] at hc
  rcases hv.withheld h c (hr.known hk) hc with (hn | ⟨o, hown, hperm⟩) | ⟨l, ht, hl⟩
  · exact Or.inl (Or.inl ((hr.mark_target hc).trans hn))
  · rcases hr.owner with he | hn | ⟨former, hformer, ht⟩
    · refine Or.inl (Or.inr ⟨o, ?_, (hr.permits _ _).trans hperm⟩)
      rw [hr.record, he, hown]
    · rw [hn] at hown
      cases hown
    · rw [hown] at hformer
      cases hformer
      exact Or.inr ⟨some o, ht, (hr.permits _ _).trans hperm⟩
  · exact Or.inr ⟨l, hr.waiting _ ht, (hr.permits _ _).trans hl⟩

/-- **Changing hands breaks no promise.** -/
theorem pledge (hr : Rehomes h f v v') (hv : v.Pledge H owed late)
    (ho : v'.Orderly (H.revise h (f (v.record h)))) :
    v'.Pledge (H.revise h (f (v.record h))) owed late := by
  have hgrows := grows_amend hv.toOrderly hr.inRange hr.revised v.cached
  refine hr.toAmends.pledge hv ho (hr.promised hv) (hr.withheld hv) fun c hk hc hl => ?_
  refine (hv.heard h c (hr.known hk) hc hl).carry (hr.marks c hc hl) (hr.words h c) fun w hw => ?_
  exact hgrows.history h w (Or.inl (hv.marked h _ w hw).1)

end Rehomes

/-! ### Administrative calls -/

theorem Orderly.relocate_fits (hv : v.Orderly H) {former : Option String}
    (hlt : h < v.records.length) : (v.enqueue (.relocate h former)).Orderly H :=
  hv.enqueue_quiet ⟨fun m hm => absurd hm List.not_mem_nil, hlt⟩ (fun _ _ _ he => by cases he)
    fun _ _ he => by cases he

theorem mem_enqueue (ha : v.accepting = true) (t : Task) : t ∈ (v.enqueue t).waiting := by
  rw [enqueue_of_accepting v ha]
  exact List.mem_append_right _ List.mem_cons_self

/-- An update is written down and queued. -/
theorem Orderly.commit (hv : v.Orderly H) {p : Properties}
    (cached : v.cached.get? (v.record h).pid = some h)
    (listed : ∀ f, (v.record h).factoryPid = some f → v.lists f (v.record h).pid = true) :
    ((v.change h fun r => r.commit p).enqueue
      (.deliver h ((v.record h).counter + 1) ((v.record h).stamp p))).Orderly
        (H.revise h ((v.record h).commit p)) := by
  have hlt := hv.known_lt cached
  have hrec := v.record_change_self hlt fun r => r.commit p
  have hfiled : (v.change h fun r => r.commit p).Filed :=
    hv.filed.change (f := fun r => r.commit p) (fun _ => rfl) (fun _ => rfl) h
  have hmid : (v.change h fun r => r.commit p).Orderly (H.revise h ((v.record h).commit p)) :=
    hv.amend (f := fun r => r.commit p) hlt ((v.record h).revised_commit p) (fun _ _ hc => hc)
      hfiled fun f hfac _ _ => listed f hfac
  refine hmid.enqueue ⟨fun m hm => ?_, trivial⟩ (fun i g q he => ?_) fun _ _ he => by cases he
  · rw [List.mem_singleton.mp hm]
    refine ⟨v.length_change h _ ▸ hlt, ?_, H.revise_self h ((v.record h).commit p)⟩
    dsimp only
    rw [hrec]
    exact Nat.le_refl _
  · -- the generation is new, so that it is ahead of all that waits
    cases he
    rw [hrec]
    refine ⟨Nat.lt_succ_of_le (hv.reached h), fun g' p' ht => ?_⟩
    exact Nat.lt_succ_of_le ((hv.sound _ ht).recalls _ List.mem_cons_self).2.1

theorem Pledge.commit (hv : v.Pledge H owed late) {p : Properties}
    (cached : v.cached.get? (v.record h).pid = some h)
    (listed : ∀ f, (v.record h).factoryPid = some f → v.lists f (v.record h).pid = true) :
    ((v.change h fun r => r.commit p).enqueue
      (.deliver h ((v.record h).counter + 1) ((v.record h).stamp p))).Pledge
        (H.revise h ((v.record h).commit p)) owed late := by
  have hlt := hv.known_lt cached
  have hf := (v.record h).revised_commit p
  have ho := hv.toOrderly.commit (p := p) cached listed
  have ha := (Amends.change hlt fun r => r.commit p).enqueue
    (.deliver h ((v.record h).counter + 1) ((v.record h).stamp p))
  have hknown := ha.known (i := h) (by rw [ha.record]; rfl)
  refine ha.pledge hv ho (fun c _ _ _ _ _ => ?_) (fun c hk hc => ?_) fun c hk hc hl => ?_
  · -- whoever may see the record is promised the new generation
    refine Or.inr ⟨_, mem_enqueue (v := v.change h fun r => r.commit p) hv.accepting _, rfl, ?_⟩
    have hlast := ho.lasts_counter (h := h) (by rw [enqueue_eq]; exact v.length_change h _ ▸ hlt)
    rw [ha.record] at hlast
    exact hlast
  · rw [ha.targets hf] at hc
    rcases hv.withheld h c (hknown hk) hc with (hn | ⟨o, hown, hperm⟩) | ⟨l, ht, hl⟩
    · exact Or.inl (Or.inl ((ha.mark? c).trans hn))
    · refine Or.inl (Or.inr ⟨o, ?_, (ha.permits _ _).trans hperm⟩)
      rw [ha.record]
      exact hown
    · exact Or.inr ⟨l, ha.waiting _ ht, (ha.permits _ _).trans hl⟩
  · have hgrows := grows_amend (f := fun r => r.commit p) hv.toOrderly hlt hf v.cached
    refine (hv.heard h c (hknown hk) hc hl).carry (ha.mark? c) (ha.words h c) fun w hw => ?_
    exact hgrows.history h w (Or.inl (hv.marked h _ w hw).1)

/-- A record is deleted, and leaves the cache. -/
def dismiss (v : View) (h : Handle) : View :=
  { v.change h fun r => { r with deleted := true } with
    cached := v.cached.erase (v.record h).pid }

theorem cached_dismiss {pid : String} {i : Handle}
    (hc : (v.dismiss h).cached.get? pid = some i) :
    v.cached.get? pid = some i ∧ pid ≠ (v.record h).pid := by
  have hc' : (v.cached.erase (v.record h).pid).get? pid = some i := hc
  rw [Table.get?_erase] at hc'
  split at hc'
  · cases hc'
  · next hne => exact ⟨hc', hne⟩

theorem Orderly.dismiss (hv : v.Orderly H) (cached : v.cached.get? (v.record h).pid = some h) :
    (v.dismiss h).Orderly (H.revise h { v.record h with deleted := true }) := by
  have hfiled := (Amendment.discard cached).filed hv.filed
  rw [enqueue_eq] at hfiled
  exact hv.amend (f := fun r => { r with deleted := true }) (hv.known_lt cached)
    (v.record h).revised_delete (fun _ _ hc => (cached_dismiss hc).1)
    ⟨hfiled.held, hfiled.titled, hfiled.distinct⟩ fun f hfac hp hk => hv.listed h f hk hfac hp

theorem Pledge.discard (hv : v.Pledge H owed late)
    (cached : v.cached.get? (v.record h).pid = some h) :
    ((v.dismiss h).enqueue (.retract h (v.record h).owner)).Pledge
      (H.revise h { v.record h with deleted := true }) owed late := by
  have hlt := hv.known_lt cached
  have hrec : (v.dismiss h).record h = { v.record h with deleted := true } := record_amend hlt
  have ha : Amends h (fun r => { r with deleted := true }) v (v.dismiss h) :=
    .of_change hlt _ fun _ _ hc => (cached_dismiss hc).1
  have hunknown : ¬((v.dismiss h).enqueue (.retract h (v.record h).owner)).Known h := by
    intro hk
    rw [Known, record_enqueue, hrec, enqueue_eq] at hk
    exact (cached_dismiss hk).2 rfl
  refine (ha.enqueue _).pledge hv ?_ (fun c hk => absurd hk hunknown)
    (fun c hk => absurd hk hunknown) fun c hk => absurd hk hunknown
  refine (hv.toOrderly.dismiss cached).enqueue ⟨fun m hm => absurd hm List.not_mem_nil, ?_⟩
    (fun _ _ _ he => by cases he) fun i owner he j f hk hp => ?_
  · show ((v.dismiss h).record h).deleted = true
    rw [hrec]
  · -- no other record of the pid is known either
    cases he
    rw [hrec] at hp
    exact absurd hp.symm (cached_dismiss hk).2

theorem Orderly.relocate (hv : v.Orderly H) {location : Option String}
    (cached : v.cached.get? (v.record h).pid = some h) :
    (v.change h fun r => r.relocate location).Orderly
      (H.revise h ((v.record h).relocate location)) := by
  have hfiled : (v.change h fun r => r.relocate location).Filed :=
    hv.filed.change (f := fun r => r.relocate location) (fun _ => rfl) (fun _ => rfl) h
  exact hv.amend (f := fun r => r.relocate location) (hv.known_lt cached)
    ((v.record h).revised_relocate location) (fun _ _ hc => hc) hfiled
    fun f hf hp hk => hv.listed h f hk hf hp

/-- **An administrative change breaks no promise.** -/
theorem Pledge.amendment (hv : v.Pledge H owed late) (ha : Amendment v v') :
    ∃ H', v'.Pledge H' owed late := by
  cases ha with
  | commit cached listed => exact ⟨_, hv.commit cached listed⟩
  | discard cached => exact ⟨_, hv.discard cached⟩
  | @settle h location cached kept =>
    have hlt := hv.known_lt cached
    have ha := Amends.change hlt fun r => r.relocate location
    have hr : Rehomes h (fun r => r.relocate location) v _ :=
      { ha with
        inRange := hlt
        revised := (v.record h).revised_relocate location
        properties := rfl
        marks := fun c _ _ => ha.mark? c
        owner := by
          rw [Record.owner_relocate]
          exact kept.imp Eq.symm Or.inl }
    exact ⟨_, hr.pledge hv (hv.toOrderly.relocate cached)⟩
  | @resettle h location cached owned =>
    obtain ⟨former, hformer⟩ := Option.isSome_iff_exists.mp owned
    have hlt := hv.known_lt cached
    have ha := (Amends.change hlt fun r => r.relocate location).enqueue
      (.relocate h (v.record h).owner)
    have hr : Rehomes h (fun r => r.relocate location) v _ :=
      { ha with
        inRange := hlt
        revised := (v.record h).revised_relocate location
        properties := rfl
        marks := fun c _ _ => ha.mark? c
        owner := by
          refine Or.inr (Or.inr ⟨former, hformer, ?_⟩)
          rw [← hformer]
          exact mem_enqueue (v := v.change h fun r => r.relocate location) hv.accepting _ }
    exact ⟨_, hr.pledge hv
      ((hv.toOrderly.relocate cached).relocate_fits (v.length_change h _ ▸ hlt))⟩

end View
end Provisioning
