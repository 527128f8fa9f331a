import Provisioning.Proofs.Draining
import Provisioning.Proofs.Isolation
import Provisioning.Proofs.Mirror

/-! # What listeners are told

A listener should hear of every change, and of nothing but changes.  What changed is read off two
consecutive states of a session here, without a look at the notice board: whether an update or a
deletion was answered, and which records have another owner than before (`news`).  That the board
was put up exactly this much, in this order, is proved action by action (`publishes`), and a
listener whose provider is always active is told of what was put up, as the notices are sent.

Two things keep the count exact.  A task visits every record at most once, because the members of a
factory that a task speaks of have different pids; and nothing is ever loaded from a storage that
was empty at the start, so that no record comes with an owner of its own.
-/
namespace Provisioning

open Relation (ReflTransGen)

namespace View

variable {admits : Record → Prop} {v v' : View}

/-! ### Tasks visit a record once -/

/-- No waiting task speaks of a record twice. -/
def Apart (v : View) : Prop := ∀ t ∈ v.waiting, t.records.Nodup

theorem Apart.of_subset (hv : v.Apart) (h : v'.waiting ⊆ v.waiting) : v'.Apart :=
  fun t ht => hv t (h ht)

theorem Apart.enqueue (hv : v.Apart) {t : Task} (ht : t.records.Nodup) : (v.enqueue t).Apart := by
  intro t' ht'
  rw [enqueue_eq] at ht'
  dsimp only at ht'
  split at ht'
  · rcases List.mem_append.mp ht' with hold | hnew
    · exact hv t' hold
    · rw [List.mem_singleton.mp hnew]
      exact ht
  · exact hv t' ht'

theorem Apart.amendment (hv : v.Apart) (ha : v.Amendment v') : v'.Apart := by
  have hsame : ∀ w : View, w.waiting = v.waiting → w.Apart := fun w hw =>
    hv.of_subset (hw ▸ List.Subset.refl _)
  cases ha with
  | @commit h | @discard h | @resettle h =>
    apply Apart.enqueue
    · exact hsame _ rfl
    · exact List.nodup_singleton h
  | settle => exact hsame _ rfl

theorem Apart.greeting {c : Consumer} {identity : String} (hv : v.Apart)
    (hg : Greeting c identity v v') : v'.Apart := by
  cases hg with
  | single =>
    refine hv.enqueue ?_
    cases v.cached.get? identity with
    | none => exact List.nodup_nil
    | some h => exact List.nodup_singleton _
  | members _ _ _ distinct => exact hv.enqueue distinct
  | unlisted => exact hv

theorem Apart.greetings {c : Consumer} {identities : List String}
    (hg : Greetings admits c identities v v') (hv : v.Apart) : v'.Apart := by
  induction hg with
  | done => exact hv
  | next lookups greeting _ ih =>
    have hlooked := hv.of_subset (fun t ht => lookups.extends.waiting ▸ ht)
    exact ih (hlooked.greeting greeting)

theorem Apart.work (hw : Work v v') (hv : v.Apart) : v'.Apart := by
  cases hw with
  | work waiting effects =>
    refine hv.of_subset fun t ht => ?_
    rw [effects.steady.waiting] at ht
    rw [waiting]
    exact List.mem_cons_of_mem _ ht

/-- Tasks that speak of a record twice are never queued, only submitted. -/
theorem Deal.apart {a : Action} (hd : Deal admits a v v') (hsub : ∀ t, a ≠ .submit t)
    (hv : v.Apart) : v'.Apart := by
  cases hd with
  | nothing => exact hv
  | call _ lookups amended =>
    have hlooked := hv.of_subset (fun t ht => lookups.extends.waiting ▸ ht)
    rcases amended with rfl | amended
    · exact hlooked
    · exact hlooked.amendment amended
  | register greetings => exact hv.greetings greetings
  | withdraw forgotten =>
    refine keep_of_steps (K := Apart) (fun _ _ ho hk => ?_) forgotten hv
    cases ho with
    | forget => exact hk.of_subset (List.Subset.refl _)
  | uninstall released =>
    refine keep_of_steps (K := Apart) (fun _ _ hr hk => ?_) released hv
    cases hr with
    | @release h =>
      apply Apart.enqueue
      · exact hk.of_subset (List.Subset.refl _)
      · exact List.nodup_singleton h
  | submit => exact absurd rfl (hsub _)
  | around | extend => exact hv.of_subset (List.Subset.refl _)
  | work work => exact hv.work work
  | stop works =>
    have hrun := keep_of_steps (K := Apart) (fun _ _ hw hk => hk.work hw) works
      (hv.of_subset (List.Subset.refl _))
    exact hrun.of_subset (List.Subset.refl _)

/-! ### Owners that stay -/

/-- No record that is there passes to another owner. -/
structure Owned (v v' : View) : Prop where
  length : v.records.length ≤ v'.records.length
  owner : ∀ h < v.records.length, (v'.record h).owner = (v.record h).owner

theorem Owned.refl (v : View) : v.Owned v := ⟨Nat.le_refl _, fun _ _ => rfl⟩

theorem Owned.trans {v'' : View} (h : v.Owned v') (h' : v'.Owned v'') : v.Owned v'' where
  length := Nat.le_trans h.length h'.length
  owner := fun i hi =>
    (h'.owner i (Nat.lt_of_lt_of_le hi h.length)).trans (h.owner i hi)

theorem Owned.of_records (h : v'.records = v.records) : v.Owned v' := by
  refine ⟨Nat.le_of_eq (congrArg List.length h.symm), fun i _ => ?_⟩
  unfold record
  rw [h]

theorem Owned.of_change {f : Record → Record} (hf : ∀ r, (f r).owner = r.owner) (h : Handle) :
    v.Owned (v.change h f) :=
  ⟨Nat.le_of_eq (v.length_change h f).symm, fun i _ => v.record_change_of_eq hf h i⟩

theorem Owned.enqueue (hv : v.Owned v') (t : Task) : v.Owned (v'.enqueue t) := by
  rw [enqueue_eq]
  exact ⟨hv.length, hv.owner⟩

theorem Extends.owned (h : Extends admits v v') : v.Owned v' :=
  ⟨h.length_le, fun _ hi => congrArg Record.owner (h.record_eq hi)⟩

theorem Greetings.owned {c : Consumer} {identities : List String}
    (hg : Greetings admits c identities v v') : v.Owned v' := by
  induction hg with
  | done => exact .refl _
  | @next v v₁ v₂ _ _ _ lookups greeting _ ih =>
    have hgreeted : v₁.Owned v₂ := by
      cases greeting with
      | single | members => exact (Owned.refl v₁).enqueue _
      | unlisted => exact .refl _
    exact (lookups.extends.owned.trans hgreeted).trans ih

/-- Owners change in calls, by work, and when a provider is uninstalled. -/
theorem Deal.owned {a : Action} (hd : Deal admits a v v') (hcall : a.isAdministrative = false)
    (hwork : a ≠ .runUpdate) (hgone : ∀ location, a ≠ .locationUninstalled location)
    (hend : a ≠ .shutdown) : v.Owned v' := by
  cases hd with
  | nothing => exact .refl v
  | call administrative =>
    rw [hcall] at administrative
    cases administrative
  | register greetings => exact greetings.owned
  | withdraw forgotten =>
    refine keep_of_steps (K := v.Owned) (fun _ _ ho hk => ?_) forgotten (.refl v)
    cases ho with
    | forget =>
      apply hk.trans
      apply Owned.of_change
      exact fun _ => rfl
  | uninstall => exact absurd rfl (hgone _)
  | submit => exact (Owned.refl v).enqueue _
  | around | extend => exact .of_records rfl
  | work => exact absurd rfl hwork
  | stop => exact absurd rfl hend

end View

namespace Session

variable (s : Session)

/-! ### Changes -/

/-- The records that an action visits: those of the task that it runs, or all that are cached. -/
def rota : Action → List Handle
  | .runUpdate => (s.updates.waiting.take 1).flatMap Task.records
  | _ => s.cache.records.values

/-- The records that an action gives to another owner, as they are visited. -/
def passed (a : Action) : List Handle :=
  (s.rota a).filter fun h => ((s.step a).2.record h).owner ≠ (s.record h).owner

/-- The factory of the record that is cached under a pid. -/
def factoryOf (pid : String) : Option String :=
  (s.cache.record? pid).bind fun h => (s.record h).factoryPid

/-- What there is to tell of an update or a deletion that was answered. -/
def amended (a : Action) : List Notice :=
  match a, (s.step a).1 with
  | .update pid _, .generation _ => [⟨.updated, pid, s.factoryOf pid⟩]
  | .delete pid, .done => [⟨.deleted, pid, s.factoryOf pid⟩]
  | _, _ => []

/-- What there is to tell of an action. -/
def news (a : Action) : List Notice := s.amended a ++ (s.passed a).map (s.noticeOf .relocated)

/-- What is put up on the board is what there is to tell, of all records that moved. -/
structure Publishes (a : Action) : Prop where
  board : (s.step a).2.board = s.board.postAll (s.news a)
  passed : ∀ h < s.records.length,
    ((s.step a).2.record h).owner ≠ (s.record h).owner → h ∈ s.rota a

/-- A session that finds nothing in its storage, and whose waiting tasks speak of every record
once. -/
structure Telling (bindingsId name : String) (s : Session) : Prop where
  mirrored : s.Mirrored bindingsId name
  tidy : s.Tidy
  apart : s.view.Apart

variable {s} {bindingsId name : String} {a : Action}

/-- No record is cached twice. -/
theorem values_nodup (hf : s.view.Filed) : s.cache.records.values.Nodup := by
  have hpids : s.cache.records.values.map (fun h => (s.record h).pid) = s.cache.records.keys := by
    unfold Table.values Table.keys
    rw [List.map_map]
    refine List.map_congr_left fun e he => ?_
    exact (hf.held e.1 e.2 (Table.get?_eq_some_iff.mpr he)).2.1
  have hkeys : s.cache.records.keys.Nodup := s.cache.records.distinct
  rw [← hpids] at hkeys
  exact hkeys.of_map

theorem mem_values {h : Handle} :
    h ∈ s.cache.records.values ↔ ∃ pid, s.view.cached.get? pid = some h := Table.mem_values_iff

/-- Every record is visited once, and is there. -/
theorem Telling.rota (ht : s.Telling bindingsId name) (a : Action) :
    (s.rota a).Nodup ∧ ∀ h ∈ s.rota a, h < s.records.length := by
  have hcached : s.cache.records.values.Nodup ∧
      ∀ h ∈ s.cache.records.values, h < s.records.length := by
    refine ⟨values_nodup ht.tidy.filed, fun h hm => ?_⟩
    obtain ⟨pid, hc⟩ := mem_values.mp hm
    exact (ht.tidy.filed.held pid h hc).1
  cases a with
  | runUpdate =>
    have hapart : ∀ t ∈ s.updates.waiting, t.records.Nodup := ht.apart
    have hminds : ∀ t ∈ s.updates.waiting, ∀ h ∈ t.records, s.Minds h := ht.tidy.tasks
    unfold Session.rota
    cases hw : s.updates.waiting with
    | nil => simp
    | cons t rest =>
      have hm : t ∈ s.updates.waiting := hw ▸ List.mem_cons_self
      have hone : ((t :: rest).take 1).flatMap Task.records = t.records := by simp
      dsimp only
      rw [hone]
      exact ⟨hapart t hm, fun h hh => (hminds t hm h hh).1⟩
  | _ => exact hcached

/-- No owner changes. -/
theorem Publishes.of_owned (ht : s.Telling bindingsId name) (ho : s.view.Owned (s.step a).2.view)
    (hb : (s.step a).2.board = s.board.postAll (s.amended a)) : s.Publishes a := by
  have hsame : ∀ h < s.records.length, ((s.step a).2.record h).owner = (s.record h).owner :=
    ho.owner
  have hnobody : s.passed a = [] := by
    refine List.filter_eq_nil_iff.mpr fun h hm => ?_
    rw [decide_eq_true_iff]
    exact not_not_intro (hsame h ((ht.rota a).2 h hm))
  refine ⟨?_, fun h hlt hne => absurd (hsame h hlt) hne⟩
  rw [news, hnobody]
  exact hb.trans (by rw [List.map_nil, List.append_nil])

/-- Owners change where records are visited. -/
theorem Publishes.of_visits (ht : s.Telling bindingsId name)
    (hv : Visits (s.rota a) s (s.step a).2) (hno : s.amended a = []) : s.Publishes a := by
  obtain ⟨hdistinct, hthere⟩ := ht.rota a
  refine ⟨?_, fun h _ hne => ?_⟩
  · rw [news, hno]
    exact hv.told_eq hdistinct hthere
  · by_cases hm : h ∈ s.rota a
    · exact hm
    · exact absurd (hv.others h hm) hne

/-! ### Actions -/

/-- A call that looks things up at most. -/
theorem OnlyLooksUp.publishes {admits : Record → Prop} (ht : s.Telling bindingsId name)
    (he : OnlyLooksUp admits s (s.step a).2) (hb : (s.step a).2.board = s.board)
    (hno : s.amended a = []) : s.Publishes a :=
  .of_owned ht he.extends.owned (by rw [hno]; exact hb)

theorem amended_refused {e : AdminError} (h : (s.step a).1 = .refused e) : s.amended a = [] := by
  unfold amended
  rw [h]
  cases a <;> rfl

/-- The record that a call is about. -/
theorem Telling.require (ht : s.Telling bindingsId name) {pid : String} {h : Handle}
    (hr : (s.require pid).1 = .ok h) (c : Change) :
    (s.require pid).2.noticeOf c h = ⟨c, pid, s.factoryOf pid⟩ := by
  obtain ⟨hsame, hcached⟩ := ht.mirrored.require_eq pid
  have hc : s.cache.record? pid = some h := hcached h hr
  have hpid : (s.record h).pid = pid := (ht.tidy.filed.held pid h hc).2.1
  rw [hsame, noticeOf, hpid, factoryOf, hc, Option.bind_some]

theorem update_owned (hf : s.view.Filed) (pid : String) (p : Properties) :
    s.view.Owned (s.update pid p).2.view := by
  have hclosed := closed_of_filed hf
  obtain ⟨hrequired, -⟩ := hclosed.require pid
  have hcourse := s.updating pid p
  generalize s.update pid p = result at hcourse ⊢
  cases hcourse with
  | refused looked =>
    rcases looked with rfl | rfl
    · exact .refl _
    · exact hrequired.extends.owned
  | @unjoined h _ _ _ required unjoined | @unstored h _ _ _ required unjoined =>
    rw [required] at hrequired
    obtain ⟨hjoined, -⟩ := hrequired.closed.join h
    rw [unjoined] at hjoined
    exact (hrequired.trans hjoined).extends.owned
  | @updated h _ s₂ storage required joined =>
    rw [required] at hrequired
    obtain ⟨hjoined, -⟩ := hrequired.closed.join h
    rw [joined] at hjoined
    rw [view_commit]
    have hcommit := View.Owned.of_change (v := s₂.view) (f := fun r => r.commit p) (fun _ => rfl) h
    exact (hrequired.trans hjoined).extends.owned.trans (hcommit.enqueue _)

theorem delete_owned (hf : s.view.Filed) (pid : String) :
    s.view.Owned (s.delete pid).2.view := by
  obtain ⟨hrequired, hcached⟩ := (closed_of_filed hf).require pid
  have hcourse := s.deleting pid
  generalize s.delete pid = result at hcourse ⊢
  cases hcourse with
  | refused looked =>
    rcases looked with rfl | rfl
    · exact .refl _
    · exact hrequired.extends.owned
  | @deleted h s₁ storage _ required =>
    rw [required] at hrequired hcached
    have hpid : (s₁.record h).pid = pid := (hrequired.closed.filed.held pid h (hcached h rfl)).2.1
    have hview := view_discard (s := { s₁ with storage }) hpid
    rw [hview]
    refine hrequired.extends.owned.trans (View.Owned.enqueue ?_ _)
    exact (View.Owned.of_change (v := s₁.view) (f := fun r => { r with deleted := true })
      (fun _ => rfl) h).trans (.of_records rfl)

theorem update_publishes (ht : s.Telling bindingsId name) (pid : String) (p : Properties) :
    s.Publishes (.update pid p) := by
  refine .of_owned ht (update_owned ht.tidy.filed pid p) ?_
  show (s.update pid p).2.board = _
  rcases s.board_update pid p with ⟨e, he, hb⟩ | ⟨h, g, hreq, hok, hb⟩
  · have hno : s.amended (.update pid p) = [] := amended_refused (e := e) (by
      show Answer.ofResult _ (s.update pid p).1 = _
      rw [he]
      rfl)
    rw [hno, hb]
    rfl
  · have hone : s.amended (.update pid p) = [⟨.updated, pid, s.factoryOf pid⟩] := by
      have hanswer : (s.step (.update pid p)).1 = .generation g := by
        show Answer.ofResult _ (s.update pid p).1 = _
        rw [hok]
        rfl
      unfold amended
      rw [hanswer]
    rw [hone, hb, ht.require hreq]
    rfl

theorem delete_publishes (ht : s.Telling bindingsId name) (pid : String) :
    s.Publishes (.delete pid) := by
  refine .of_owned ht (delete_owned ht.tidy.filed pid) ?_
  show (s.delete pid).2.board = _
  rcases s.board_delete pid with ⟨e, he, hb⟩ | ⟨h, hreq, hok, hb⟩
  · have hno : s.amended (.delete pid) = [] := amended_refused (e := e) (by
      show Answer.ofResult _ (s.delete pid).1 = _
      rw [he]
      rfl)
    rw [hno, hb]
    rfl
  · have hone : s.amended (.delete pid) = [⟨.deleted, pid, s.factoryOf pid⟩] := by
      have hanswer : (s.step (.delete pid)).1 = .done := by
        show Answer.ofResult _ (s.delete pid).1 = _
        rw [hok]
        rfl
      unfold amended
      rw [hanswer]
    rw [hone, hb, ht.require hreq]
    rfl

/-- A location that is set moves one record at most: that of the pid. -/
theorem setLocation_publishes (ht : s.Telling bindingsId name) (pid : String)
    (location : Option String) : s.Publishes (.setLocation pid location) := by
  have hno : s.amended (.setLocation pid location) = [] := by
    unfold amended
    split <;> simp_all
  obtain ⟨hsame, hcached⟩ := ht.mirrored.require_eq pid
  have hboard := s.board_setLocation pid location
  have hcourse := s.settling pid location
  have hstep : (s.step (.setLocation pid location)).2 = (s.setLocation pid location).2 := rfl
  generalize hresult : s.setLocation pid location = result at hcourse hboard hstep
  cases hcourse with
  | refused looked =>
    have hs : (s.step (.setLocation pid location)).2 = s := by
      rcases looked with rfl | rfl
      · exact hstep
      · exact hstep.trans hsame
    exact .of_owned ht (by rw [hs]; exact .refl _) (by rw [hs, hno]; rfl)
  | @settled h s₁ storage required =>
    rw [required] at hsame hcached
    obtain rfl : s₁ = s := hsame
    rcases hboard with ⟨e, he, -⟩ | ⟨h', hreq, -, hboard⟩
    · cases he
    rw [required] at hreq hboard
    obtain rfl : h = h' := by cases hreq; rfl
    have hc := hcached h rfl
    have hlt := (ht.tidy.filed.held pid h hc).1
    have hm : h ∈ s₁.cache.records.values := mem_values.mpr ⟨pid, hc⟩
    obtain ⟨waiting, hview⟩ := view_resettle { s₁ with storage } h pid location
    have hrecord : ∀ i, (s₁.step (.setLocation pid location)).2.record i =
        (s₁.view.change h fun r => r.relocate location).record i := by
      intro i
      rw [hstep, ← record_view, hview]
      rfl
    have howner : ((s₁.step (.setLocation pid location)).2.record h).owner = location := by
      rw [hrecord, View.record_change_self _ hlt]
      exact Option.or_none
    have hothers : ∀ i, i ≠ h →
        (s₁.step (.setLocation pid location)).2.record i = s₁.record i := by
      intro i hi
      rw [hrecord]
      exact s₁.view.record_change_ne hi _
    -- the record is the only one that may have moved
    have hpassed : s₁.passed (.setLocation pid location) =
        if (s₁.record h).owner = location then [] else [h] := by
      split
      · next hl =>
        refine List.filter_eq_nil_iff.mpr fun i _ => ?_
        rw [decide_eq_true_iff, not_not]
        by_cases hi : i = h
        · rw [hi, howner, hl]
        · rw [hothers i hi]
      · next hl =>
        refine (filter_of_sublist (List.singleton_sublist.mpr hm) (values_nodup ht.tidy.filed)
          fun i _ => ?_).symm
        rw [List.mem_singleton, decide_eq_true_iff]
        constructor
        · rintro rfl
          rw [howner]
          exact Ne.symm hl
        · intro hne
          by_cases hi : i = h
          · exact hi
          · exact absurd (by rw [hothers i hi]) hne
    refine ⟨?_, fun i _ hne => ?_⟩
    · rw [news, hno, hpassed, hstep, hboard]
      split <;> rfl
    · by_cases hi : i = h
      · exact hi ▸ hm
      · exact absurd (by rw [hothers i hi]) hne

/-- **What is put up is what there is to tell.** -/
theorem Telling.publishes (ht : s.Telling bindingsId name) (hcome : ∀ l, a ≠ .listenerRegistered l)
    (hgo : ∀ service, a ≠ .listenerWithdrawn service) (hsend : a ≠ .runNotice)
    (hend : a ≠ .shutdown) : s.Publishes a := by
  have hf := ht.tidy.filed
  have hclosed := closed_of_filed hf
  have hadmits : ∀ r : Record, r.Blank → (fun _ => True) r := fun _ _ => trivial
  have hquiet : a.isAdministrative = false → a ≠ .runUpdate →
      (∀ location, a ≠ .locationUninstalled location) → (s.step a).2.board = s.board →
        s.amended a = [] → s.Publishes a := fun hcall hwork hgone hb hno =>
    .of_owned ht ((step_deal hf a).owned hcall hwork hgone hend) (by rw [hno]; exact hb)
  cases a with
  | update pid p => exact update_publishes ht pid p
  | delete pid => exact delete_publishes ht pid
  | setLocation pid location => exact setLocation_publishes ht pid location
  | getOrCreate pid location =>
    exact (hclosed.getOrCreate pid location fun r hb _ => hadmits r hb).publishes ht
      (s.board_getOrCreate pid location) rfl
  | createMember f location names =>
    exact (hclosed.createMember f location names fun r hb _ => hadmits r hb).publishes ht
      (s.board_createMember f location names) rfl
  | getExisting pid =>
    exact (hclosed.getExisting pid).publishes ht (s.board_getExisting pid) rfl
  | members f => exact (hclosed.members f).publishes ht (s.board_members f) rfl
  | getLocation pid =>
    exact (hclosed.getLocation pid).publishes ht (s.board_getLocation pid) rfl
  | list filter => exact hclosed.onlyLooksUp.publishes ht rfl rfl
  | runUpdate =>
    refine .of_visits ht ?_ rfl
    show Visits (s.rota .runUpdate) s s.runUpdate
    unfold Session.rota
    cases hw : s.updates.waiting with
    | nil =>
      rw [s.runUpdate_idle hw]
      exact .refl s
    | cons t rest =>
      rw [s.runUpdate_busy hw]
      have hone : ((t :: rest).take 1).flatMap Task.records = t.records := by simp
      dsimp only
      rw [hone]
      have hpop : Visits [] s { s with updates := s.updates.pop } := .of_records rfl rfl
      exact hpop.trans (perform_visits _ t)
  | locationUninstalled location => exact .of_visits ht (s.locationUninstalled_visits location) rfl
  | consumerRegistered c =>
    exact hquiet rfl nofun nofun (s.board_consumerRegistered c) rfl
  | consumerWithdrawn service =>
    exact hquiet rfl nofun nofun (s.board_consumerWithdrawn service) rfl
  | submit t => exact hquiet rfl nofun nofun (s.board_schedule t) rfl
  | addPlugin | removePlugin => exact hquiet rfl nofun nofun rfl rfl
  | around action =>
    refine hquiet rfl nofun nofun ?_ rfl
    cases action with
    | withdraw id | behave id =>
      simp only [step, World.step]
      split <;> rfl
    | install | setState | uninstall | addConsumer | addListener | backend => rfl
  | listenerRegistered l => exact absurd rfl (hcome l)
  | listenerWithdrawn service => exact absurd rfl (hgo service)
  | runNotice => exact absurd rfl hsend
  | shutdown => exact absurd rfl hend

/-- Every record that an action gives to another owner is counted, once. -/
theorem Telling.mem_passed (ht : s.Telling bindingsId name) (hend : a ≠ .shutdown) :
    (s.passed a).Nodup ∧ ∀ h, h ∈ s.passed a ↔ h < s.records.length ∧
      ((s.step a).2.record h).owner ≠ (s.record h).owner := by
  obtain ⟨hdistinct, hthere⟩ := ht.rota a
  refine ⟨hdistinct.filter _, fun h => ?_⟩
  rw [Session.passed, List.mem_filter, decide_eq_true_iff]
  refine ⟨fun ⟨hm, hne⟩ => ⟨hthere h hm, hne⟩, fun ⟨hlt, hne⟩ => ⟨?_, hne⟩⟩
  by_cases hwork : a = .runUpdate ∨ a.isAdministrative = true ∨
      ∃ location, a = .locationUninstalled location
  · have hother : ∀ b : Action, b ≠ .runUpdate → b.isAdministrative = false →
        (∀ location, b ≠ .locationUninstalled location) → a ≠ b := by
      rintro b hrun hcall hgone rfl
      rcases hwork with he | he | ⟨location, he⟩
      · exact hrun he
      · rw [hcall] at he
        cases he
      · exact hgone location he
    exact (ht.publishes (fun _ => hother _ nofun rfl nofun) (fun _ => hother _ nofun rfl nofun)
      (hother _ nofun rfl nofun) hend).passed h hlt hne
  · -- all others leave the owners alone
    rw [not_or, not_or, not_exists, Bool.not_eq_true] at hwork
    have howned := (step_deal ht.tidy.filed a).owned hwork.2.1 hwork.1 hwork.2.2 hend
    exact absurd (howned.owner h hlt) hne

theorem Telling.step (ht : s.Telling bindingsId name) (hsub : ∀ t, a ≠ .submit t)
    (hend : a ≠ .shutdown) (hspares : a.SparesStorage) : (s.step a).2.Telling bindingsId name where
  mirrored := ht.mirrored.step_unfinished ht.tidy.filed hend hspares
  tidy := (step_strokes ht.tidy ⟨fun _ => trivial, fun _ => trivial⟩
    (within_all hsub hend)).tidy ht.tidy
  apart := (step_deal ht.tidy.filed a).apart hsub ht.apart

theorem Telling.run {actions : List Action} (ht : s.Telling bindingsId name)
    (hsub : ∀ t, .submit t ∉ actions) (hend : .shutdown ∉ actions)
    (hspares : ∀ a ∈ actions, a.SparesStorage) : (s.run actions).Telling bindingsId name := by
  induction actions generalizing s with
  | nil => exact ht
  | cons a rest ih =>
    have hone := ht.step (fun t he => hsub t (he ▸ List.mem_cons_self))
      (fun he => hend (he ▸ List.mem_cons_self)) (hspares a List.mem_cons_self)
    exact ih hone (fun t hm => hsub t (List.mem_cons_of_mem a hm))
      (fun hm => hend (List.mem_cons_of_mem a hm)) fun b hb => hspares b (List.mem_cons_of_mem a hb)

/-- A manager that starts over one empty backend. -/
theorem start_telling {w : World} (hw : w.Bare) {settings : Settings}
    (hs : start w settings = .ok s) : ∃ name, s.Telling settings.bindingsId name := by
  obtain ⟨name, hm⟩ := start_mirrored hw hs
  refine ⟨name, hm, start_tidy hs, fun t ht => ?_⟩
  rw [start_view hs] at ht
  exact absurd ht List.not_mem_nil

/-! ### One listener -/

/-- A listener is told of changes, once of each. -/
structure Hears (l : Service) (s : Session) : Prop where
  listens : l ∈ s.listeners
  distinct : (s.listeners.map Service.id).Nodup

variable {l : Service}

theorem Hears.of_listeners {s s' : Session} (hl : s.Hears l) (he : s'.listeners = s.listeners) :
    s'.Hears l := ⟨he ▸ hl.listens, he ▸ hl.distinct⟩

/-- A listener that is not withdrawn listens on. -/
theorem Hears.step (hl : s.Hears l) (hkeep : a ≠ .listenerWithdrawn l.id) (hend : a ≠ .shutdown) :
    (s.step a).2.Hears l := by
  by_cases hsend : a = .runNotice
  · subst hsend
    exact hl.of_listeners (congrArg Board.listeners s.board_runNotice)
  by_cases hcome : ∃ m, a = .listenerRegistered m
  · obtain ⟨m, rfl⟩ := hcome
    show (s.listenerRegistered m).Hears l
    unfold listenerRegistered
    split
    · exact hl
    · next hnew =>
      -- the id of a listener that is added is a new one
      have hfresh : ∀ id ∈ s.listeners.map Service.id, id ≠ m.id := by
        intro id hid he
        obtain ⟨k, hk, rfl⟩ := List.mem_map.mp hid
        exact hnew (List.any_eq_true.mpr ⟨k, hk, beq_iff_eq.mpr he⟩)
      refine ⟨List.mem_append_left _ hl.listens, ?_⟩
      show ((s.listeners ++ [m]).map Service.id).Nodup
      rw [List.map_append]
      refine List.nodup_append.mpr ⟨hl.distinct, List.nodup_singleton _, ?_⟩
      intro id hid id' hid'
      rw [List.mem_singleton.mp hid']
      exact hfresh id hid
  by_cases hgo : ∃ service, a = .listenerWithdrawn service
  · obtain ⟨service, rfl⟩ := hgo
    have hother : l.id ≠ service := fun he => hkeep (by rw [he])
    refine ⟨List.mem_filter.mpr ⟨hl.listens, bne_iff_ne.mpr hother⟩, ?_⟩
    exact hl.distinct.sublist (List.filter_sublist.map Service.id)
  · obtain ⟨news, hb⟩ := s.step_board (not_exists.mp hcome) (not_exists.mp hgo) hsend hend
    rw [Board.postAll_eq] at hb
    exact hl.of_listeners (congrArg Board.listeners hb)

/-- What there is to tell is announced to those who listen. -/
theorem Telling.announced_eq (ht : s.Telling bindingsId name) (hl : s.Hears l)
    (hopen : s.notices.accepting = true) (hend : a ≠ .shutdown) :
    s.announced a = (s.news a).map fun n => (n, s.listeners) := by
  -- what has to do with listeners only is no change of a record
  have hsilent : s.amended a = [] → s.view.Owned (s.step a).2.view →
      (s.step a).2.notices.waiting.length ≤ s.notices.waiting.length →
        s.announced a = (s.news a).map fun n => (n, s.listeners) := by
    intro hno ho hnone
    have hnobody : s.passed a = [] := by
      refine List.filter_eq_nil_iff.mpr fun h hm => ?_
      rw [decide_eq_true_iff]
      exact not_not_intro (ho.owner h ((ht.rota a).2 h hm))
    rw [news, hno, hnobody, s.announced_of_accepting hopen a, List.drop_eq_nil_of_le hnone]
    rfl
  have hquiet : a.isAdministrative = false → a ≠ .runUpdate →
      (∀ location, a ≠ .locationUninstalled location) → s.view.Owned (s.step a).2.view :=
    fun hcall hwork hgone => (step_deal ht.tidy.filed a).owned hcall hwork hgone hend
  by_cases hsend : a = .runNotice
  · subst hsend
    have hnotices : s.runNotice.notices = s.notices.pop := congrArg Board.notices s.board_runNotice
    refine hsilent rfl (hquiet rfl (fun he => by cases he) fun _ he => by cases he) ?_
    show s.runNotice.notices.waiting.length ≤ _
    rw [hnotices, WorkLine.pop, List.length_tail]
    omega
  by_cases hcome : ∃ m, a = .listenerRegistered m
  · obtain ⟨m, rfl⟩ := hcome
    refine hsilent rfl (hquiet rfl (fun he => by cases he) fun _ he => by cases he) ?_
    show (s.listenerRegistered m).notices.waiting.length ≤ _
    unfold listenerRegistered
    split <;> exact Nat.le_refl _
  by_cases hgo : ∃ service, a = .listenerWithdrawn service
  · obtain ⟨service, rfl⟩ := hgo
    exact hsilent rfl (hquiet rfl (fun he => by cases he) fun _ he => by cases he) (Nat.le_refl _)
  · have hb := (ht.publishes (not_exists.mp hcome) (not_exists.mp hgo) hsend hend).board
    rw [Board.postAll_eq] at hb
    have hnotices : (s.step a).2.notices = _ := congrArg Board.notices hb
    have hsome : s.board.listeners.isEmpty = false :=
      Bool.eq_false_iff.mpr fun he => List.ne_nil_of_mem hl.listens (List.isEmpty_iff.mp he)
    have haccepting : s.board.notices.accepting = true := hopen
    rw [s.announced_of_accepting hopen a, hnotices, hsome, haccepting]
    exact List.drop_left

/-- Over a run: what there is to tell is announced, to the listener among others. -/
theorem Telling.announced_run {actions : List Action} (ht : s.Telling bindingsId name)
    (hl : s.Hears l) (hopen : s.notices.accepting = true) (hsub : ∀ t, .submit t ∉ actions)
    (hend : .shutdown ∉ actions) (hspares : ∀ a ∈ actions, a.SparesStorage)
    (hkeep : .listenerWithdrawn l.id ∉ actions) :
    (s.history announced actions).map Prod.fst = s.history news actions ∧
      ∀ e ∈ s.history announced actions, l ∈ e.2 ∧ e.2.Nodup := by
  induction actions generalizing s with
  | nil => exact ⟨rfl, fun e he => absurd he List.not_mem_nil⟩
  | cons a rest ih =>
    have ha : ∀ b, b ∉ a :: rest → a ≠ b := fun b hb he => hb (he ▸ List.mem_cons_self)
    have hlast : ∀ b, b ∉ a :: rest → b ∉ rest := fun b hb hm => hb (List.mem_cons_of_mem a hm)
    have hannounced := ht.announced_eq hl hopen (ha _ hend)
    obtain ⟨hmap, hall⟩ := ih
      (ht.step (fun t => ha _ (hsub t)) (ha _ hend) (hspares a List.mem_cons_self))
      (hl.step (ha _ hkeep) (ha _ hend)) (s.notices_step (ha _ hend) hopen).1
      (fun t => hlast _ (hsub t)) (hlast _ hend) (fun b hb => hspares b (List.mem_cons_of_mem a hb))
      (hlast _ hkeep)
    have hfst : (s.announced a).map Prod.fst = s.news a := by
      rw [hannounced, List.map_map]
      exact List.map_id _
    rw [history, history, List.map_append, hmap, hfst]
    refine ⟨rfl, fun e he => ?_⟩
    rcases List.mem_append.mp he with he | he
    · rw [hannounced] at he
      obtain ⟨n, -, rfl⟩ := List.mem_map.mp he
      exact ⟨hl.listens, hl.distinct.of_map⟩
    · exact hall e he

/-- Notices are sent as the directory stands at some moment of the run. -/
theorem sent_active {actions : List Action}
    (hactive : ∀ past, past <+: actions → (s.run past).directory.stateOf l = .active) :
    ∀ r ∈ s.history sent actions, r.directory.stateOf l = .active := by
  induction actions generalizing s with
  | nil => exact fun r hr => absurd hr List.not_mem_nil
  | cons a rest ih =>
    intro r hr
    rcases List.mem_append.mp hr with hr | hr
    · have hnow : s.directory.stateOf l = .active := hactive [] (List.nil_prefix)
      cases a with
      | runNotice =>
        obtain ⟨e, -, rfl⟩ := List.mem_map.mp hr
        exact hnow
      | _ => exact absurd hr List.not_mem_nil
    · exact ih (s := (s.step a).2)
        (fun past hp => hactive (a :: past) (List.cons_prefix_cons.mpr ⟨rfl, hp⟩)) r hr

end Session

/-- Of a notice that is sent, one who listens and is active is told once. -/
theorem Round.told_to {r : Round} {l : Service} (hl : l ∈ r.listeners) (hd : r.listeners.Nodup)
    (hactive : r.directory.stateOf l = .active) :
    (r.told.filter fun k => k.listener = l).map Notification.notice = [r.notice] := by
  have hone : [l] = r.listeners.filter fun m =>
      decide (m = l) && decide (r.directory.stateOf m = .active) := by
    refine filter_of_sublist (List.singleton_sublist.mpr hl) hd fun m _ => ?_
    rw [List.mem_singleton, Bool.and_eq_true, decide_eq_true_iff, decide_eq_true_iff]
    exact ⟨fun he => ⟨he, he ▸ hactive⟩, And.left⟩
  have hfilter : (fun k : Notification => decide (k.listener = l)) ∘
      (fun m => (⟨m, r.notice⟩ : Notification)) = fun m => decide (m = l) := rfl
  unfold told
  rw [List.filter_map, hfilter, List.filter_filter, ← hone]
  rfl

namespace Session

variable {s : Session}

/-- **Notices mirror changes.**  A manager starts over one backend that is empty, and nobody else
writes to it; failing writes are allowed.  A listener that is there from the start and stays, with
a provider that is always active, was told exactly of what there was to tell, in order, once nothing
waits to be sent: of every update and deletion that was answered, and of every record that passed to
another owner. -/
theorem notices_mirror_changes {w : World} (hw : w.Bare) (hkept : w.directory.WellKept)
    {settings : Settings} (hs : start w settings = .ok s) {actions : List Action}
    (hsub : ∀ t, .submit t ∉ actions) (hend : .shutdown ∉ actions)
    (hspares : ∀ a ∈ actions, a.SparesStorage) {l : Service} (hl : l ∈ s.listeners)
    (hkeep : .listenerWithdrawn l.id ∉ actions)
    (hactive : ∀ past, past <+: actions → (s.run past).directory.stateOf l = .active)
    (hidle : (s.run actions).notices.waiting = []) :
    (((s.run actions).notifications.drop s.notifications.length).filter fun k =>
        k.listener = l).map Notification.notice = s.history news actions ∧
      ∀ past a, past ++ [a] <+: actions → ((s.run past).passed a).Nodup ∧
        ∀ h, h ∈ (s.run past).passed a ↔ h < (s.run past).records.length ∧
          (((s.run past).step a).2.record h).owner ≠ ((s.run past).record h).owner := by
  obtain ⟨name, ht⟩ := start_telling hw hs
  obtain ⟨home, bindings, storage, -, -, hstart⟩ := start_eq hs
  have hopen : s.notices.accepting = true := by rw [hstart]
  have hnone : s.notices.waiting = [] := by rw [hstart]
  have hhears : s.Hears l := by
    refine ⟨hl, ?_⟩
    have hcurrent : s.listeners = w.directory.currentListeners := by rw [hstart]
    have hids := (List.nodup_append.mp hkept.distinct).2.1
    rw [hcurrent]
    exact hids.sublist (List.filter_sublist.map Service.id)
  refine ⟨?_, ?_⟩
  · obtain ⟨-, hposts, htold⟩ := s.notices_run hend hopen
    obtain ⟨hnews, hheard⟩ := ht.announced_run hhears hopen hsub hend hspares hkeep
    rw [hidle, hnone, List.append_nil, List.nil_append] at hposts
    rw [htold, List.drop_left, ← hnews, ← hposts]
    have hsent := sent_active hactive
    rw [← hposts] at hheard
    clear hposts hnews htold
    generalize s.history sent actions = rounds at hsent hheard
    induction rounds with
    | nil => rfl
    | cons r rest ih =>
      obtain ⟨hm, hd⟩ := hheard (r.notice, r.listeners) List.mem_cons_self
      have hone := r.told_to hm hd (hsent r List.mem_cons_self)
      have hall := ih (fun r' hr' => hsent r' (List.mem_cons_of_mem r hr'))
        fun e he => hheard e (List.mem_cons_of_mem _ he)
      rw [List.flatMap_cons, List.filter_append, List.map_append, hone, hall]
      rfl
  · intro past a hpast
    have hmem : ∀ b ∈ past ++ [a], b ∈ actions := fun b hb => hpast.subset hb
    have hbefore : ∀ b ∈ past, b ∈ actions := fun b hb => hmem b (List.mem_append_left _ hb)
    have ht' := ht.run (fun t hm => hsub t (hbefore _ hm)) (fun hm => hend (hbefore _ hm))
      fun b hb => hspares b (hbefore b hb)
    exact ht'.mem_passed fun he => hend (hmem _ (he ▸ List.mem_append_right _ List.mem_cons_self))

/-- A record is updated, bound by its first delivery, given the location that it is bound to, set
free and deleted. -/
def eventful : List Action :=
  [.around (.addConsumer .single "here" ["pid"] 0), .getOrCreate "pid" none,
    .update "pid" .empty, .runUpdate, .setLocation "pid" (some "here"), .setLocation "pid" none,
    .delete "pid", .runNotice, .runNotice, .runNotice, .runNotice]

/-- A location that is set to where the record is bound is no change of the owner. -/
theorem notices_mirror_changes_eventful :
    ∃ w s l, World.Bare w ∧ w.directory.WellKept ∧ start w {} = .ok s ∧ l ∈ s.listeners ∧
      (((s.run eventful).notifications.drop s.notifications.length).filter fun k =>
        k.listener = l).map Notification.notice = s.history news eventful ∧
      (s.history news eventful).map Notice.change =
        [.updated, .relocated, .relocated, .deleted] := by
  have hw : World.Bare { directory := (({} : Directory).registerListener "there").2 } := Or.inl rfl
  have hkept : (({} : Directory).registerListener "there").2.WellKept :=
    Directory.wellKept_empty.registerListener "there"
  obtain ⟨s, hs⟩ : ∃ s, start { directory := (({} : Directory).registerListener "there").2 } {} =
    .ok s := ⟨_, rfl⟩
  obtain ⟨l, hl⟩ : ∃ l, l = (({} : Directory).registerListener "there").1 := ⟨_, rfl⟩
  have hlistens : l ∈ s.listeners := by
    cases hs
    subst hl
    decide
  have hspares : ∀ a ∈ eventful, a.SparesStorage := by simp [eventful, Action.SparesStorage]
  have hactive : ∀ past, past <+: eventful → (s.run past).directory.stateOf l = .active := by
    have hall : ∀ n < 12, (s.run (eventful.take n)).directory.stateOf l = .active := by
      cases hs
      subst hl
      decide +kernel
    intro past hpast
    rw [List.prefix_iff_eq_take.mp hpast]
    exact hall past.length (Nat.lt_succ_of_le hpast.length_le)
  have hidle : (s.run eventful).notices.waiting = [] := by
    cases hs
    decide +kernel
  obtain ⟨htold, -⟩ := notices_mirror_changes hw hkept hs (by simp [eventful]) (by simp [eventful])
    hspares hlistens (by simp [eventful]) hactive hidle
  refine ⟨_, s, l, hw, hkept, hs, hlistens, htold, ?_⟩
  cases hs
  decide +kernel

end Session
end Provisioning
