import Provisioning.Proofs.Holders
import Provisioning.Proofs.Moves

/-! # What a deletion tells

A deletion queues a retraction, which tells those who may see the record under the owner that it
has at that moment, and from then on the record is served to nobody.  That reaches everybody who
holds the record as long as those who hold it may see it.  A holder that may not is on the way of
being told by a change of the owner that still waits; but such a change skips a record that was
deleted in the meantime, and the retraction leaves out whoever may not see the last owner.  So
this holder keeps what it was handed, and no other holder does.
-/
namespace Provisioning

open Relation (ReflTransGen)

namespace View

/-- Before a deletion: whoever holds a record may see it, or a change of the owner waits under
which the consumer saw it before. -/
structure Guarded (v : View) : Prop where
  recorded : v.Recorded
  /-- Nobody is kept from what belongs to its own location. -/
  own : ∀ l, v.permits l (some l) = true
  fair : ∀ h c, v.accepting = true → v.Known h → c ∈ v.targets h → v.Fair h c ∨
    ∃ former, .relocate h former ∈ v.waiting ∧ v.permits c.service.location former = true

/-- After a deletion: the retraction under the last owner still waits, and nothing has been said
since the deletion, or just those hold the record that held it then and may not see that
owner. -/
structure Doomed (before : View) (h : Handle) (owner : Option String) (v : View) : Prop where
  recorded : v.Recorded
  access : v.access = before.access
  directory : before.directory.Continues v.directory
  target : (v.record h).target = (before.record h).target
  deleted : (v.record h).deleted = true
  only : ∀ owner', .retract h owner' ∈ v.waiting → owner' = owner
  outcome : ∀ c ∈ v.targets h,
    (v.Holds h c ↔ before.Holds h c ∧ v.permits c.service.location owner = false) ∨
      .retract h owner ∈ v.waiting ∧ (v.Holds h c ↔ before.Holds h c)

variable {v v' : View} {h : Handle} {c : Consumer} {greeted : Option Consumer}

/-- An owner that passes on a record leaves the change to be told to those who saw it. -/
theorem Guarded.interlude (hv : v.Guarded) (hi : v.Interlude greeted v')
    (hg : ∀ c, greeted = some c → c ∈ v'.directory.consumers) : v'.Guarded where
  recorded := hi.recorded hv.recorded hg
  own := fun l => (hi.permits _ _).trans (hv.own l)
  fair := by
    intro h c ha hk hc
    have hnew : ¬v.Holds h c → v'.Fair h c := fun hno hholds =>
      absurd (hi.holds.mp hholds) hno
    rw [hi.accepting] at ha
    rcases hi.known h hk with hk' | hge
    · rcases Nat.lt_or_ge h v.records.length with hlt | hge
      · by_cases hold : c ∈ v.directory.consumers
        · rcases hv.fair h c ha hk' (hi.targets hlt hc hold) with hfair | ⟨former, hw, hp⟩
          · by_cases hholds : v.Holds h c
            · obtain ⟨o, ho, hp⟩ := hfair hholds
              rcases hi.owner h hlt with hsame | hnone | htold
              · exact Or.inl fun _ => ⟨o, hsame.trans ho, (hi.permits _ _).trans hp⟩
              · rw [ho] at hnone
                cases hnone
              · rw [ho] at htold
                exact Or.inr ⟨some o, htold ha, (hi.permits _ _).trans hp⟩
            · exact Or.inl (hnew hholds)
          · exact Or.inr ⟨former, hi.waiting _ hw, (hi.permits _ _).trans hp⟩
        · exact Or.inl (hnew (hv.recorded.not_holds (Or.inl hold)))
      · exact Or.inl (hnew (hv.recorded.not_holds (Or.inr hge)))
    · exact Or.inl (hnew (hv.recorded.not_holds (Or.inr hge)))

theorem Doomed.interlude {before : View} {owner : Option String} (hb : before.Recorded)
    (hv : before.Doomed h owner v) (hi : v.Interlude greeted v')
    (hg : ∀ c, greeted = some c → c ∈ v'.directory.consumers) : before.Doomed h owner v' where
  recorded := hi.recorded hv.recorded hg
  access := hi.access.trans hv.access
  directory := hv.directory.trans hi.directory
  target := (hi.target h (lt_of_deleted hv.deleted)).trans hv.target
  deleted := hi.deleted h hv.deleted
  only := by
    intro owner' ht
    rcases hi.tasks _ ht with ht | ⟨-, -, -, hdel⟩
    · exact hv.only owner' ht
    · -- a record is deleted once
      have hd := hdel h owner' rfl
      rw [hv.deleted] at hd
      cases hd
  outcome := by
    intro c hc
    by_cases hold : c ∈ v.directory.consumers
    · have hc' := hi.targets (lt_of_deleted hv.deleted) hc hold
      rw [hi.permits, hi.holds]
      exact (hv.outcome c hc').imp_right fun hx => ⟨hi.waiting _ hx.1, hx.2⟩
    · -- a consumer that was not there holds nothing, and held nothing
      have h₁ : ¬v'.Holds h c := fun hx =>
        hv.recorded.not_holds (Or.inl hold) (hi.holds.mp hx)
      have h₂ : ¬before.Holds h c :=
        hb.not_holds (Or.inl fun hx => hold (hv.directory.consumers c hx))
      exact Or.inl ⟨fun hx => absurd hx h₁, fun hx => absurd hx.1 h₂⟩

/-- A record is deleted: it leaves the cache, and a retraction is queued. -/
def discard (v : View) (h : Handle) : View :=
  ({ v.change h fun r => { r with deleted := true } with
    cached := v.cached.erase (v.record h).pid } : View).enqueue (.retract h (v.record h).owner)

theorem record_discard (v : View) (hlt : h < v.records.length) :
    (v.discard h).record h = { v.record h with deleted := true } := by
  rw [discard, record_enqueue]
  exact v.record_change_self hlt fun r => { r with deleted := true }

theorem directory_discard (v : View) : (v.discard h).directory = v.directory := by
  rw [discard, enqueue_eq]
  rfl

theorem waiting_discard (v : View) (ha : v.accepting = true) :
    (v.discard h).waiting = v.waiting ++ [.retract h (v.record h).owner] := by
  rw [discard, enqueue_eq]
  exact if_pos ha

/-- Right after a deletion its retraction waits, which is the first of the record. -/
theorem doomed_discard (hf : v.Filed) (hr : v.Recorded) (ha : v.accepting = true)
    (hk : v.Known h) : (v.discard h).Doomed h (v.record h).owner (v.discard h) := by
  obtain ⟨hlt, -, hdel⟩ := hf.held _ h hk
  have hi : v.Interlude none (v.discard h) := Amendment.interlude (.discard hk) hf
  refine ⟨hi.recorded hr (fun c hx => by cases hx), rfl, .refl _, rfl, ?_, fun owner' ht => ?_,
    fun c _ => Or.inr ⟨?_, Iff.rfl⟩⟩
  · rw [v.record_discard hlt]
  · rw [v.waiting_discard ha] at ht
    rcases List.mem_append.mp ht with ht | ht
    · have hd := (hr.tasks _ ht).1.retracted h owner' rfl
      rw [hdel] at hd
      cases hd
    · cases List.mem_singleton.mp ht
      rfl
  · rw [v.waiting_discard ha]
    exact List.mem_append_right _ List.mem_cons_self

/-- Whoever the record is for later on, and was there at the deletion, it was for then. -/
theorem Doomed.mem_targets {before : View} {owner : Option String}
    (hv : before.Doomed h owner v) (hc : c ∈ v.targets h)
    (hmem : c ∈ before.directory.consumers) : c ∈ before.targets h := by
  obtain ⟨-, hlive, hkind, hlists⟩ := Target.mem_resolve.mp hc
  rw [hv.target] at hkind hlists
  exact Target.mem_resolve.mpr ⟨hmem, hv.directory.live c hmem hlive, hkind, hlists⟩

/-- Whoever holds a record that is deleted, and may not see its owner, was about to lose it. -/
theorem Guarded.discard (hv : v.Guarded) (hf : v.Filed) (ha : v.accepting = true)
    (hk : v.Known h) (hc : c ∈ (v.discard h).targets h) (hholds : (v.discard h).Holds h c)
    (hdenied : (v.discard h).permits c.service.location (v.record h).owner = false) :
    ∃ former, .relocate h former ∈ (v.discard h).waiting ∧
      (v.discard h).permits c.service.location former = true := by
  have hi : v.Interlude none (v.discard h) := Amendment.interlude (.discard hk) hf
  have hmem : c ∈ v.directory.consumers := v.directory_discard ▸ (Target.mem_resolve.mp hc).1
  have hc₀ : c ∈ v.targets h := hi.targets (hf.held _ h hk).1 hc hmem
  rcases hv.fair h c ha hk hc₀ with hfair | ⟨former, ht, hp⟩
  · obtain ⟨o, ho, hp⟩ := hfair (hi.holds.mp hholds)
    rw [hi.permits, ho, hp] at hdenied
    cases hdenied
  · exact ⟨former, hi.waiting _ ht, (hi.permits _ _).trans hp⟩

end View

namespace Session

variable {s : Session} {h : Handle} {c : Consumer}

/-! ### What the worker does -/

/-- A consumer that saw a record under its former owner may see it after the change was told, or
has lost it. -/
theorem relocate_fair {former : Option String} (hown : ∀ l, s.view.permits l (some l) = true)
    (hdel : (s.record h).deleted = false) (hlt : h < s.view.records.length)
    (hc : c ∈ s.view.targets h)
    (hformer : s.view.permits c.service.location former = true) :
    (s.relocate h former).view.Fair h c := by
  have hst := (s.bindFirst_taskEffects (t := .relocate h former) hdel
    (List.mem_singleton_self h)).steady
  have hlt₁ : h < (s.bindFirst h (s.view.targets h)).view.records.length :=
    Nat.lt_of_lt_of_eq hlt hst.length.symm
  obtain ⟨o, ho⟩ := Option.ne_none_iff_exists'.mp (s.bindFirst_owned hc hlt₁)
  refine relocate_achieves (K := Settled (s.bindFirst h (s.view.targets h)).view h)
    (Q := fun u => u.Fair h c) hdel hc (.refl _ h) (fun _ hu => hu)
    (fun u u' hd hs hu => ⟨hs, fun hf => ?_⟩) fun s' hu => ?_
  · refine hd.fair (fun l => ?_) (Nat.lt_of_lt_of_eq hlt₁ hu.length.symm) hf
    rw [hu.permits, hst.permits]
    exact hown l
  · have hsaw : s'.permits c.service.location former = true := by
      rw [← permits_view, hu.permits, hst.permits]
      exact hformer
    unfold reconsider
    dsimp only
    rw [hsaw, ho]
    by_cases hsees : s'.permits c.service.location (some o) = true
    · rw [hsees]
      exact fun _ => ⟨o, hu.owner.trans ho, hsees⟩
    · -- the record is taken away
      rw [Bool.eq_false_iff.mpr hsees]
      have hkind : c.kind = ((s.bindFirst h (s.view.targets h)).view.record h).target.kind := by
        rw [(hst.content h).target]
        exact (Target.mem_resolve.mp hc).2.2.1
      intro hholds
      refine absurd hholds (View.not_holds_concat (View.words_hear_self (v := s'.view)
        (o := ⟨h, s'.record h, none⟩) (p := none) ?_ hkind rfl) ?_)
      · show ((s'.revoke h _ c).change h fun r => r.forget c.service.id).view.calls = _
        rw [view_change, view_revoke]
        rfl
      · exact Target.properties?_message _ none

/-- A consumer that may see the last owner of a deleted record loses it. -/
theorem retract_told {owner : Option String} (hdel : (s.record h).deleted = true)
    (hc : c ∈ s.view.targets h) (hperm : s.view.permits c.service.location owner = true) :
    ¬(s.retract h owner).view.Holds h c := by
  have hkeep : ∀ {u u' : View}, TaskEffects (.retract h owner) u u' → (u.record h).deleted = true →
      ¬u.Holds h c → ¬u'.Holds h c := by
    intro u u' hd hdel hno
    induction hd with
    | refl => exact hno
    | tail hfirst hlast ih =>
      have hdel' := ((TaskEffects.steady hfirst).content h).deleted.trans hdel
      rcases hlast.words_or h c with hsame | ⟨k, hk, hsees | ⟨hp, -⟩⟩
      · exact fun hx => ih ((View.holds_of_words hsame).mp hx)
      · rw [hsees.undeleted] at hdel'
        cases hdel'
      · exact View.not_holds_concat hk hp
  have hloop : ¬((s.view.targets h).foldl (fun s' c =>
      s'.retractFrom h (s.record h).target owner c) s).view.Holds h c := by
    refine foldl_achieves (K := Settled s.view h) (Q := fun u => ¬u.Holds h c)
      (fun s' c' hc' hs => ?_) hc (fun s' hs => ?_) s (.refl _ h)
    · obtain ⟨hd, hs'⟩ := s'.retractFrom_taskEffects owner hc' hs
      exact ⟨hs', hkeep hd (hs.content.deleted.trans hdel)⟩
    · have hperm' : s'.permits c.service.location owner = true := by
        rw [← permits_view, hs.permits]
        exact hperm
      unfold retractFrom
      rw [if_pos hperm']
      refine View.not_holds_concat (View.words_hear_self (v := s'.view)
        (o := ⟨h, s'.record h, none⟩) (p := none) ?_ (Target.mem_resolve.mp hc).2.2.1 rfl)
        (Target.properties?_message _ none)
      rw [view_revoke]
      rfl
  have hst : s.view.Steady ((s.view.targets h).foldl (fun s' c =>
      s'.retractFrom h (s.record h).target owner c) s).view :=
    (foldl_taskEffects (t := .retract h owner) (K := Settled s.view h)
      (fun s' c hc hK => s'.retractFrom_taskEffects owner hc hK) s (.refl _ h)).steady
  unfold retract
  dsimp only
  split
  · next f hf =>
    have hd := expel_taskEffects _ owner ((hst.content h).factoryPid.trans hf)
    have hpid : (((s.view.targets h).foldl (fun s' c =>
        s'.retractFrom h (s.record h).target owner c) s).record h).pid = (s.record h).pid :=
      (hst.content h).pid
    rw [hpid] at hd
    exact hkeep hd ((hst.content h).deleted.trans hdel) hloop
  · exact hloop

/-- No task but its retraction tells anybody of a record that was deleted. -/
theorem perform_holds_deleted {t : Task} (hdel : (s.view.record h).deleted = true)
    (hno : ∀ owner, t ≠ .retract h owner) :
    (s.perform t).view.Holds h c ↔ s.view.Holds h c :=
  View.holds_of_words
    ((s.perform_taskEffects t).words_deleted hdel fun owner ht => absurd ht (hno owner))

/-- A retraction leaves the record to just those of its consumers that may not see the owner. -/
theorem retract_holds {owner : Option String} (hdel : (s.view.record h).deleted = true)
    (hc : c ∈ s.view.targets h) :
    (s.retract h owner).view.Holds h c ↔
      s.view.Holds h c ∧ s.view.permits c.service.location owner = false := by
  cases hp : s.view.permits c.service.location owner with
  | true =>
    have htold : ¬(s.retract h owner).view.Holds h c := retract_told hdel hc hp
    exact ⟨fun hx => absurd hx htold, fun hx => by cases hx.2⟩
  | false =>
    have hwords := (s.perform_taskEffects (.retract h owner)).words_deleted (c := c) hdel
      fun owner' ht => by cases ht; exact hp
    have hsame : (s.retract h owner).view.Holds h c ↔ s.view.Holds h c :=
      View.holds_of_words hwords
    rw [hsame, eq_self, and_true]

theorem keeps_guarded : Keeps View.Guarded where
  interlude := fun _ hi hg h => h.interlude hi hg
  work := by
    intro s hf hv
    rcases s.runUpdate_cases with he | ⟨t, rest, s₁, hw, hview, he⟩
    · rw [he]
      exact hv
    have hst := (s₁.perform_taskEffects t).steady
    refine ⟨keeps_recorded.work hf hv.recorded, fun l => ?_, fun h c ha hk hc => ?_⟩
    · rw [he, hst.permits, hview]
      exact hv.own l
    · rw [he] at ha hk hc ⊢
      rw [hst.accepting, hview] at ha
      rw [hst.known, hview] at hk
      rw [hst.targets, hview] at hc
      obtain ⟨hlt, -, hdel⟩ := hf.held _ h hk
      have hown : ∀ l, s₁.view.permits l (some l) = true := by
        rw [hview]
        exact hv.own
      rcases hv.fair h c ha hk hc with hfair | ⟨former, ht, hp⟩
      · have hfair₁ : s₁.view.Fair h c := by
          rw [hview]
          exact hfair
        exact Or.inl ((s₁.perform_taskEffects t).fair hown (by rw [hview]; exact hlt) hfair₁)
      · rw [hw] at ht
        rcases List.mem_cons.mp ht with rfl | ht
        · -- the change is told now
          left
          refine relocate_fair hown ?_ ?_ ?_ ?_
          · rw [← record_view, hview]
            exact hdel
          · rw [hview]
            exact hlt
          · rw [hview]
            exact hc
          · rw [hview]
            exact hp
        · refine Or.inr ⟨former, ?_, ?_⟩
          · rw [hst.waiting, hview]
            exact ht
          · rw [hst.permits, hview]
            exact hp
  close := fun h => ⟨h.recorded.of_eq rfl rfl rfl fun _ ht => ht, h.own,
    fun _ _ ha => by cases ha⟩
  clear := fun h => ⟨h.recorded.of_eq rfl rfl rfl fun _ ht => ht, h.own,
    fun _ _ _ hk => by cases hk⟩

theorem keeps_doomed {before : View} {owner : Option String} (hb : before.Recorded) :
    Keeps (before.Doomed h owner) where
  interlude := fun _ hi hg hv => hv.interlude hb hi hg
  work := by
    intro s hf hv
    rcases s.runUpdate_cases with he | ⟨t, rest, s₁, hw, hview, he⟩
    · rw [he]
      exact hv
    have hd := s₁.perform_taskEffects t
    have hst := hd.steady
    have hdel : (s₁.view.record h).deleted = true := by
      rw [hview]
      exact hv.deleted
    have hrest : ∀ t' ∈ (s₁.perform t).view.waiting, t' ∈ s.view.waiting := by
      rw [hst.waiting, hview, hw]
      exact fun t' ht => List.mem_cons_of_mem t ht
    rw [he]
    refine ⟨he ▸ keeps_recorded.work hf hv.recorded, ?_, ?_, ?_, ?_, ?_, fun c hc => ?_⟩
    · rw [hst.access, hview]
      exact hv.access
    · rw [hst.directory, hview]
      exact hv.directory
    · rw [(hst.content h).target, hview]
      exact hv.target
    · exact (hst.content h).deleted.trans hdel
    · exact fun owner' ht => hv.only owner' (hrest _ ht)
    · rw [hst.targets, hview] at hc
      have hheld : s₁.view.Holds h c ↔ s.view.Holds h c := by
        rw [hview]
        rfl
      have hperm₁ : s₁.view.permits c.service.location owner =
          s.view.permits c.service.location owner := by
        rw [hview]
        rfl
      rw [hst.permits, hperm₁]
      by_cases ht : t = .retract h owner
      · -- the retraction reaches those that may see the owner
        subst ht
        left
        have htold : (s₁.perform (.retract h owner)).view.Holds h c ↔
            s₁.view.Holds h c ∧ s₁.view.permits c.service.location owner = false :=
          retract_holds hdel (by rw [hview]; exact hc)
        rw [htold, hheld, hperm₁]
        rcases hv.outcome c hc with hout | ⟨-, hout⟩
        · rw [hout, and_assoc, and_self]
        · rw [hout]
      · rw [perform_holds_deleted hdel fun owner' heq => ht
          (heq.trans (by rw [hv.only owner' (by rw [hw, heq]; exact List.mem_cons_self)])), hheld]
        refine (hv.outcome c hc).imp_right fun hx => ⟨?_, hx.2⟩
        rw [hst.waiting, hview]
        rcases List.mem_cons.mp (hw ▸ hx.1) with heq | hin
        · exact absurd heq.symm ht
        · exact hin
  close := fun hv => ⟨hv.recorded.of_eq rfl rfl rfl fun _ ht => ht, hv.access, hv.directory,
    hv.target, hv.deleted, hv.only, hv.outcome⟩
  clear := fun hv => ⟨hv.recorded.of_eq rfl rfl rfl fun _ ht => ht, hv.access, hv.directory,
    hv.target, hv.deleted, hv.only, hv.outcome⟩

/-! ### Deletions -/

/-- The last callback that a consumer has received on behalf of a record carried properties. -/
def Holds (s : Session) (h : Handle) (c : Consumer) : Prop :=
  ∃ k, s.lastWord h c = some k ∧ k.message.properties? ≠ none

end Session

/-- The callbacks that a world has on record were made to consumers that are registered, on behalf
of records that are there. -/
def World.Recorded (w : World) : Prop :=
  ∀ k ∈ w.calls, k.consumer ∈ w.directory.consumers ∧
    ∀ o, k.occasion = some o → o.record < w.records.length

namespace Session

variable {s : Session} {h : Handle} {c : Consumer}

theorem start_recorded {w : World} {settings : Settings} (hw : w.Recorded)
    (hs : start w settings = .ok s) : s.view.Recorded := by
  rw [start_view hs]
  exact ⟨hw, fun t ht => absurd ht List.not_mem_nil⟩

theorem start_guarded {w : World} {settings : Settings} (hw : w.Recorded) (hown : w.Courteous)
    (hs : start w settings = .ok s) : s.view.Guarded := by
  refine ⟨start_recorded hw hs, fun l => ?_, fun h c _ hk => ?_⟩
  · rw [start_view hs]
    exact hown.permits_own l
  · rw [start_view hs] at hk
    cases hk

/-- A deletion that is done was of a record that was looked up first. -/
theorem delete_done (hf : s.view.Filed) {s₁ : Session} {pid : String}
    (hfound : (s.configuration pid).1 = .ok (some h))
    (hdone : s.step (.delete pid) = (.done, s₁)) :
    ∃ v, s.view.Interlude none v ∧ v.Filed ∧ v.accepting = true ∧ v.Known h ∧
      s₁.view = v.discard h := by
  obtain ⟨hlooks, hcached⟩ := (closed_of_filed hf).require pid
  obtain ⟨-, hrequired⟩ := s.require_spec pid
  have hdone' : (Answer.ofResult (fun _ => Answer.done) (s.delete pid).1, (s.delete pid).2) =
      (.done, s₁) := hdone
  have hcourse := s.deleting pid
  generalize s.delete pid = result at hcourse hdone'
  cases hcourse with
  | refused => cases hdone'
  | @deleted i s₀ storage running required stored =>
    cases hdone'
    rw [required] at hlooks hcached hrequired
    have hi : h = i := by
      have hsame := hrequired i rfl
      rw [hfound] at hsame
      cases hsame
      rfl
    subst hi
    have hf₀ : s₀.view.Filed := hlooks.closed.filed
    have hext : s.view.Interlude none s₀.view := hlooks.extends.interlude
    have hc : s₀.view.cached.get? pid = some h := hcached h rfl
    exact ⟨s₀.view, hext, hf₀, hext.accepting.trans running, hf₀.known hc,
      view_discard (s := { s₀ with storage }) (hf₀.held pid h hc).2.1⟩

/-- **Whom a deletion does not reach.**  When all work after a deletion is done, a live consumer
that the record is for holds it still exactly if it held the record when it was deleted and may
not see the owner that the record had then.  Such a consumer was about to lose the record: a
change of the owner was waiting under which the consumer saw it before. -/
theorem deletions_reach_iff {w : World} (hw : w.Recorded) {settings : Settings} {s : Session}
    (hs : start w settings = .ok s) {before after : List Action} {pid : String} {h : Handle}
    {s₁ : Session} (hfound : ((s.run before).configuration pid).1 = .ok (some h))
    (hdone : (s.run before).step (.delete pid) = (.done, s₁))
    (hsub : ∀ t, .submit t ∉ before ++ after) (hbefore : s.KeepsDirectory before)
    (hafter : s₁.KeepsDirectory after) (hdrained : (s₁.run after).updates.waiting = [])
    {c : Consumer}
    (hc : c ∈ ((s₁.run after).record h).target.resolve (s₁.run after).directory) :
    ((s₁.run after).Holds h c ↔
      s₁.Holds h c ∧ s₁.permits c.service.location (s₁.record h).owner = false) ∧
    (w.Courteous → s₁.Holds h c → s₁.permits c.service.location (s₁.record h).owner = false →
      ∃ former, .relocate h former ∈ s₁.updates.waiting ∧
        s₁.permits c.service.location former = true) := by
  have hf := start_filed hs
  have hsub₁ : ∀ t, .submit t ∉ before := fun t ht => hsub t (List.mem_append_left _ ht)
  have hsub₂ : ∀ t, .submit t ∉ after := fun t ht => hsub t (List.mem_append_right _ ht)
  have hrx := keeps_recorded.run hf hbefore hsub₁ (start_recorded hw hs)
  obtain ⟨v, hext, hvf, ha, hk, hview⟩ := delete_done (run_filed hf before) hfound hdone
  have hdoom := View.doomed_discard hvf (hext.recorded hrx fun c hx => by cases hx) ha hk
  have hf₁ : s₁.view.Filed := by
    rw [hview]
    exact View.Amendment.filed (.discard hk) hvf
  rw [← hview] at hdoom
  have hend := (keeps_doomed hdoom.recorded).run hf₁ hafter hsub₂ hdoom
  have hperm : ∀ o, (s₁.run after).view.permits c.service.location o =
      s₁.permits c.service.location o := fun o => View.permits_of_access hend.access _ o
  have hown : (s₁.record h).owner = (v.record h).owner := by
    rw [← record_view, hview, v.record_discard (hvf.held _ h hk).1]
    rfl
  rw [hown]
  refine ⟨?_, fun hcourt hholds hdenied => ?_⟩
  · rcases hend.outcome c hc with hout | ⟨ht, -⟩
    · rw [hperm] at hout
      exact hout
    · have hw' : (s₁.run after).view.waiting = [] := hdrained
      rw [hw'] at ht
      exact absurd ht List.not_mem_nil
  · have hguard := keeps_guarded.run hf hbefore hsub₁ (start_guarded hw hcourt hs)
    -- whoever holds the record was there when it was deleted
    have hmem : c ∈ s₁.view.directory.consumers := by
      by_contra hno
      exact hdoom.recorded.not_holds (Or.inl hno) hholds
    have hc₁ : c ∈ s₁.view.targets h := hend.mem_targets hc hmem
    have hholds₁ : s₁.view.Holds h c := hholds
    have hdenied₁ : s₁.view.permits c.service.location (v.record h).owner = false := hdenied
    rw [hview] at hc₁ hholds₁ hdenied₁
    obtain ⟨former, ht, hp⟩ := (hguard.interlude hext fun c hx => by cases hx).discard hvf ha hk
      hc₁ hholds₁ hdenied₁
    rw [← hview] at ht hp
    exact ⟨former, ht, hp⟩

/-- A consumer at one location is served a record, and the record moves to another location. -/
def moved : List Action :=
  [.around (.addConsumer .single "here" ["pid"] 0), .getOrCreate "pid" (some "here"),
    .update "pid" .empty, .runUpdate, .setLocation "pid" (some "there")]

theorem keepsDirectory_moved {s : Session} (hs : start {} {} = .ok s) :
    s.KeepsDirectory moved := by
  have hinward : ∀ (s : Session) {a : Action}, a.greeted = none →
      (∀ action, a ≠ .around action) → s.Proper a := fun _ _ => .of_inward
  refine ⟨⟨(fun c he => by cases he), fun action he => ?_⟩, hinward _ rfl nofun,
    hinward _ rfl nofun, hinward _ rfl nofun, hinward _ rfl nofun, trivial⟩
  cases he
  cases hs
  exact Directory.wellKept_empty.continues_registerConsumer .single "here" ["pid"] 0

/-- When the record is deleted before the worker tells of the move, the consumer keeps it. -/
theorem deletions_reach_iff_moved :
    ∃ s s₁ c, World.Recorded {} ∧ World.Courteous {} ∧ start {} {} = .ok s ∧
      ((s.run moved).configuration "pid").1 = .ok (some 0) ∧
      (s.run moved).step (.delete "pid") = (.done, s₁) ∧
      (∀ t, .submit t ∉ moved ++ [.runUpdate, .runUpdate]) ∧ s.KeepsDirectory moved ∧
      s₁.KeepsDirectory [.runUpdate, .runUpdate] ∧
      (s₁.run [.runUpdate, .runUpdate]).updates.waiting = [] ∧
      c ∈ ((s₁.run [.runUpdate, .runUpdate]).record 0).target.resolve
        (s₁.run [.runUpdate, .runUpdate]).directory ∧
      (s₁.run [.runUpdate, .runUpdate]).Holds 0 c ∧
      ∃ former, .relocate 0 former ∈ s₁.updates.waiting ∧
        s₁.permits c.service.location former = true := by
  have hw : World.Recorded {} := fun k hk => absurd hk List.not_mem_nil
  have hcourt : World.Courteous {} := by
    intro check hc
    cases hc
  obtain ⟨s, hs⟩ : ∃ s, start {} {} = .ok s := ⟨_, rfl⟩
  obtain ⟨s₁, hs₁⟩ : ∃ s₁, s₁ = ((s.run moved).step (.delete "pid")).2 := ⟨_, rfl⟩
  have hfound : ((s.run moved).configuration "pid").1 = .ok (some 0) := by
    cases hs
    rfl
  have hdone : (s.run moved).step (.delete "pid") = (.done, s₁) := by
    subst hs₁
    cases hs
    rfl
  have hall : (s₁.run [.runUpdate, .runUpdate]).updates.waiting = [] ∧
      (((s₁.run [.runUpdate, .runUpdate]).record 0).target.resolve
        (s₁.run [.runUpdate, .runUpdate]).directory).any (fun c =>
          !s₁.permits c.service.location (s₁.record 0).owner &&
            (s₁.lastWord 0 c).any fun k => k.message.properties?.isSome) = true := by
    subst hs₁
    cases hs
    decide
  obtain ⟨hdrained, hany⟩ := hall
  obtain ⟨c, hc, hheld⟩ := List.any_eq_true.mp hany
  rw [Bool.and_eq_true, Bool.not_eq_true', Option.any_eq_true] at hheld
  obtain ⟨hdenied, k, hlast, hsome⟩ := hheld
  have hsub : ∀ t, .submit t ∉ moved ++ [.runUpdate, .runUpdate] := by simp [moved]
  have hafter : s₁.KeepsDirectory [.runUpdate, .runUpdate] :=
    ⟨.of_inward rfl nofun, .of_inward rfl nofun, trivial⟩
  have hholds : s₁.Holds 0 c := ⟨k, hlast, Option.isSome_iff_ne_none.mp hsome⟩
  obtain ⟨hiff, hwaits⟩ := deletions_reach_iff hw hs hfound hdone hsub (keepsDirectory_moved hs)
    hafter hdrained hc
  exact ⟨s, s₁, c, hw, hcourt, hs, hfound, hdone, hsub, keepsDirectory_moved hs, hafter, hdrained,
    hc, hiff.mpr ⟨hholds, hdenied⟩, hwaits hcourt hholds hdenied⟩

/-- The record is deleted, nothing waits any more, and the last callback to a live consumer that
the record is for has carried properties. -/
theorem deletion_unheard_moved :
    ∃ s s₁ c, start {} {} = .ok s ∧ ((s.run moved).configuration "pid").1 = .ok (some 0) ∧
      (s.run moved).step (.delete "pid") = (.done, s₁) ∧
      (s₁.run [.runUpdate, .runUpdate]).updates.waiting = [] ∧
      ((s₁.run [.runUpdate, .runUpdate]).record 0).deleted = true ∧
      c ∈ ((s₁.run [.runUpdate, .runUpdate]).record 0).target.resolve
        (s₁.run [.runUpdate, .runUpdate]).directory ∧
      (s₁.run [.runUpdate, .runUpdate]).Holds 0 c := by
  obtain ⟨s, hs⟩ : ∃ s, start {} {} = .ok s := ⟨_, rfl⟩
  obtain ⟨s₁, hs₁⟩ : ∃ s₁, s₁ = ((s.run moved).step (.delete "pid")).2 := ⟨_, rfl⟩
  have hall : (s₁.run [.runUpdate, .runUpdate]).updates.waiting = [] ∧
      ((s₁.run [.runUpdate, .runUpdate]).record 0).deleted = true ∧
      (((s₁.run [.runUpdate, .runUpdate]).record 0).target.resolve
        (s₁.run [.runUpdate, .runUpdate]).directory).any (fun c =>
          ((s₁.run [.runUpdate, .runUpdate]).lastWord 0 c).any fun k =>
            k.message.properties?.isSome) = true := by
    subst hs₁
    cases hs
    decide
  obtain ⟨hdrained, hdel, hany⟩ := hall
  obtain ⟨c, hc, hheld⟩ := List.any_eq_true.mp hany
  obtain ⟨k, hlast, hsome⟩ := (Option.any_eq_true _ _).mp hheld
  refine ⟨s, s₁, c, hs, ?_, ?_, hdrained, hdel, hc, k, hlast, Option.isSome_iff_ne_none.mp hsome⟩
  · cases hs
    rfl
  · subst hs₁
    cases hs
    rfl

end Session
end Provisioning
