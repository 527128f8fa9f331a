import Provisioning.Proofs.Performance

/-! # What a running task achieves

A task goes through its consumers one after the other.  In the round of one consumer that
consumer is reached, or loses what it may not see any more, and the other rounds keep that.  So
a waiting task that was a promise has kept it when it has run.
-/
namespace Provisioning

namespace View

variable {v : View} {h : Handle} {c : Consumer}

/-- Whoever may not see a record counts as reached. -/
theorem reached_of_denied {g : Nat}
    (hp : v.permits c.service.location (v.record h).owner = false) : v.Reached h c g := by
  cases ho : (v.record h).owner with
  | none =>
    rw [ho] at hp
    cases hp
  | some o => exact Or.inr ⟨o, ho, ho ▸ hp⟩

theorem reached_of_delivered {g : Nat}
    (hd : (v.record h).deliveredTo c.service.id g = true) : v.Reached h c g := by
  obtain ⟨w, hw, hle⟩ := (v.record h).deliveredTo_eq_true_iff.mp hd
  exact Or.inl ⟨w, hw, hle⟩

theorem Reached.advance {g : Nat} (hr : v.Reached h c g) (g' : Nat) :
    (v.change h fun r => r.advance g').Reached h c g := by
  rcases hr with ⟨w, hw, hle⟩ | ⟨o, ho, hp⟩
  · exact Or.inl ⟨w, (mark?_advance g' h).trans hw, hle⟩
  · refine Or.inr ⟨o, ?_, hp⟩
    rw [v.record_change_of_eq (q := Record.owner) (f := fun r => r.advance g') fun _ => rfl]
    exact ho

end View

namespace Session

variable {H : History} {s : Session} {h : Handle} {c : Consumer}

/-- What every round of a loop keeps, the loop keeps. -/
theorem foldl_keeps {α : Type} {f : Session → α → Session} {l : List α} {K Q : View → Prop}
    (hround : ∀ s b, b ∈ l → K s.view → K (f s b).view ∧ (Q s.view → Q (f s b).view))
    (s : Session) (hK : K s.view) (hQ : Q s.view) : Q (l.foldl f s).view := by
  induction l generalizing s with
  | nil => exact hQ
  | cons b rest ih =>
    obtain ⟨hK', hQ'⟩ := hround s b List.mem_cons_self hK
    exact ih (fun s' b' hb => hround s' b' (List.mem_cons_of_mem b hb)) _ hK' (hQ' hQ)

/-- What a loop achieves in the round of one item, and keeps in the others. -/
theorem foldl_achieves {α : Type} {f : Session → α → Session} {l : List α} {a : α}
    {K Q : View → Prop}
    (hround : ∀ s b, b ∈ l → K s.view → K (f s b).view ∧ (Q s.view → Q (f s b).view))
    (ha : a ∈ l) (hone : ∀ s, K s.view → Q (f s a).view) (s : Session) (h : K s.view) :
    Q (l.foldl f s).view := by
  induction l generalizing s with
  | nil => exact absurd ha List.not_mem_nil
  | cons b rest ih =>
    have hrest : ∀ s b, b ∈ rest → K s.view → K (f s b).view ∧ (Q s.view → Q (f s b).view) :=
      fun s' b' hb => hround s' b' (List.mem_cons_of_mem b hb)
    obtain ⟨hK, -⟩ := hround s b List.mem_cons_self h
    rcases List.mem_cons.mp ha with rfl | ha
    · -- the rounds that follow keep it
      exact foldl_keeps hrest _ hK (hone s h)
    · exact ih hrest ha _ hK

/-! ### One consumer -/

theorem serve_reached {target : Target} {g : Nat} {p : Properties}
    (hlt : h < s.view.records.length) : (s.serve h target c g p).view.Reached h c g := by
  rw [view_serve]
  left
  obtain ⟨w, hw, hle⟩ := Record.le_watermark?_note (s.view.record h) c.service.id g
  exact ⟨w, (View.mark?_change_self hlt _ c).trans hw, hle⟩

theorem offer_reached {w : View} {target : Target} {g : Nat} {p : Properties}
    (hs : Settled w h s.view) (hlt : h < s.view.records.length) :
    (s.offer h target (w.record h).owner g p c).view.Reached h c g := by
  unfold offer
  split
  · next hseen => exact View.reached_of_delivered hseen
  · split
    · exact serve_reached hlt
    · next hdenied =>
      refine View.reached_of_denied ?_
      rw [view_deny, hs.owner]
      exact Bool.eq_false_iff.mpr hdenied

theorem introduce_reached {target : Target} {g : Nat} {p : Properties}
    (hdel : (s.record h).deleted = false) (hlt : h < s.view.records.length) :
    (s.introduce h target c g p).view.Reached h c g := by
  unfold introduce
  dsimp only
  split
  · next hd =>
    rw [hdel] at hd
    cases hd
  · split
    · next hseen => exact View.reached_of_delivered hseen
    · split
      · refine serve_reached ?_
        rw [view_bind, View.length_change]
        exact hlt
      · next hdenied => exact View.reached_of_denied (Bool.eq_false_iff.mpr hdenied)

/-! ### All consumers of a record -/

/-- What the rounds of a task rely on. -/
structure Underway (H : History) (t : Task) (w : View) (h : Handle) (v : View) : Prop where
  orderly : v.Orderly H
  due : t.Due H v
  settled : Settled w h v

variable {t : Task} {w v v' : View}

theorem Underway.taskEffects (hu : Underway H t w h v) (hd : TaskEffects t v v')
    (hs : Settled w h v') :
    Underway H t w h v' :=
  ⟨hd.orderly hu.orderly hu.due, hd.steady.due hu.due, hs⟩

theorem Underway.inRange (hu : Underway H t w h v) (hlt : h < w.records.length) :
    h < v.records.length :=
  Nat.lt_of_lt_of_eq hlt hu.settled.length.symm

theorem Underway.consumer (hu : Underway H t w h v) (hc : c ∈ w.directory.consumers) :
    c ∈ v.directory.consumers := by
  rw [hu.settled.directory]
  exact hc

/-- A task that serves a record starts with the record bound. -/
theorem underway_bindFirst (hv : s.view.Orderly H) (ht : t.Due H s.view)
    (hdel : (s.record h).deleted = false) (hmine : h ∈ t.records) :
    Underway H t (s.bindFirst h (s.view.targets h)).view h
      (s.bindFirst h (s.view.targets h)).view := by
  have hd := s.bindFirst_taskEffects (t := t) hdel hmine
  exact ⟨hd.orderly hv ht, hd.steady.due ht, .refl _ h⟩

theorem consumer_bindFirst (hdel : (s.record h).deleted = false) (hc : c ∈ s.view.targets h) :
    c ∈ (s.bindFirst h (s.view.targets h)).view.directory.consumers := by
  rw [(s.bindFirst_taskEffects (t := .relocate h none) hdel
    (List.mem_singleton_self h)).steady.directory]
  exact (Target.mem_resolve.mp hc).1

/-- What the effects of a due task keep, its rounds keep. -/
theorem Underway.round {Q : View → Prop} (hu : Underway H t w h v) (hd : TaskEffects t v v')
    (hs : Settled w h v') (hc : c ∈ w.directory.consumers)
    (hkeep : ∀ u u', TaskEffects t u u' → u.Orderly H → t.Due H u → c ∈ u.directory.consumers →
      Q u → Q u') :
    Underway H t w h v' ∧ (Q v → Q v') :=
  ⟨hu.taskEffects hd hs, hkeep v v' hd hu.orderly hu.due (hu.consumer hc)⟩

/-- What the round of one consumer achieves, and the other rounds keep, the loop achieves. -/
theorem rounds_achieve {f : Session → Consumer → Session} {K Q : View → Prop}
    (hc : c ∈ s.view.targets h) (hK : K (s.bindFirst h (s.view.targets h)).view)
    (hsettled : ∀ u, K u → Settled (s.bindFirst h (s.view.targets h)).view h u)
    (hround : ∀ (s' : Session) c', c' ∈ s.view.targets h →
      Settled (s.bindFirst h (s.view.targets h)).view h s'.view →
        TaskEffects t s'.view (f s' c').view ∧
        Settled (s.bindFirst h (s.view.targets h)).view h (f s' c').view)
    (hkeep : ∀ u u', TaskEffects t u u' → Settled (s.bindFirst h (s.view.targets h)).view h u' →
      K u → K u' ∧ (Q u → Q u'))
    (hone : ∀ s' : Session, K s'.view → Q (f s' c).view) :
    Q ((s.view.targets h).foldl f (s.bindFirst h (s.view.targets h))).view := by
  refine foldl_achieves (K := K) (Q := Q) (fun s' c' hc' hu => ?_) hc hone _ hK
  obtain ⟨hd, hs⟩ := hround s' c' hc' (hsettled _ hu)
  exact hkeep _ _ hd hs hu

theorem deliver_reached {g : Nat} {p : Properties} (hv : s.view.Orderly H)
    (ht : (Task.deliver h g p).Due H s.view) (hdel : (s.record h).deleted = false)
    (hnew : (s.record h).delivered < g) (hc : c ∈ s.view.targets h) :
    (s.deliver h g p).view.Reached h c g := by
  have hlt := (ht.sound.recalls _ List.mem_cons_self).1
  have hst := (s.bindFirst_taskEffects (t := .deliver h g p) hdel
    (List.mem_singleton_self h)).steady
  have hmem := consumer_bindFirst hdel hc
  have hloop : ((s.view.targets h).foldl (fun s' c => s'.offer h
      ((s.bindFirst h (s.view.targets h)).view.record h).target
      ((s.bindFirst h (s.view.targets h)).view.record h).owner g p c)
      (s.bindFirst h (s.view.targets h))).view.Reached h c g := by
    refine rounds_achieve (t := .deliver h g p) (Q := fun u => u.Reached h c g) hc
      (underway_bindFirst hv ht hdel (List.mem_singleton_self h)) (fun _ hu => hu.settled)
      (fun s' c' hc' hs => ?_)
      (fun u u' hd hs hu => hu.round hd hs hmem fun u u' hd ho hdue hmem hr =>
        hd.reached ho hdue hmem hr) fun s' hu => ?_
    · exact s'.offer_taskEffects ((hst.content h).deleted.trans hdel) (s.bindFirst_owned hc')
        ((hst.targets h).symm ▸ hc') hs
    · exact offer_reached hu.settled (hu.inRange (Nat.lt_of_lt_of_eq hlt hst.length.symm))
  rw [(hst.content h).target] at hloop
  unfold deliver
  dsimp only
  split
  · next hd =>
    rw [hdel] at hd
    cases hd
  · split
    · -- what waits is newer than what was delivered to all
      next hstale => exact absurd hnew (Nat.not_lt.mpr (of_decide_eq_true hstale))
    · rw [view_change]
      exact hloop.advance g

/-- What a change of the owner does to one consumer, it does to the end. -/
theorem relocate_achieves {former : Option String} {K Q : View → Prop}
    (hdel : (s.record h).deleted = false) (hc : c ∈ s.view.targets h)
    (hK : K (s.bindFirst h (s.view.targets h)).view)
    (hsettled : ∀ u, K u → Settled (s.bindFirst h (s.view.targets h)).view h u)
    (hkeep : ∀ u u', TaskEffects (.relocate h former) u u' →
      Settled (s.bindFirst h (s.view.targets h)).view h u' → K u → K u' ∧ (Q u → Q u'))
    (hone : ∀ s' : Session, K s'.view →
      Q (s'.reconsider h ((s.bindFirst h (s.view.targets h)).view.record h).target former
        ((s.bindFirst h (s.view.targets h)).view.record h).owner c).view) :
    Q (s.relocate h former).view := by
  have hst := (s.bindFirst_taskEffects (t := .relocate h former) hdel
    (List.mem_singleton_self h)).steady
  have hloop : Q ((s.view.targets h).foldl (fun s' c => s'.reconsider h
      ((s.bindFirst h (s.view.targets h)).view.record h).target former
      ((s.bindFirst h (s.view.targets h)).view.record h).owner c)
      (s.bindFirst h (s.view.targets h))).view := by
    refine rounds_achieve hc hK hsettled (fun s' c' hc' hs => ?_) hkeep hone
    exact s'.reconsider_taskEffects ((hst.content h).deleted.trans hdel) (s.bindFirst_owned hc')
      ((hst.targets h).symm ▸ hc') hs
  rw [(hst.content h).target] at hloop
  unfold relocate
  dsimp only
  split
  · next hd =>
    rw [hdel] at hd
    cases hd
  · exact hloop

/-- A consumer that gains the record by a change of the owner is served. -/
theorem relocate_reached {former : Option String} (hv : s.view.Orderly H)
    (ht : (Task.relocate h former).Due H s.view) (hdel : (s.record h).deleted = false)
    (hc : c ∈ s.view.targets h) (hp : (s.record h).properties ≠ none)
    (hformer : s.view.permits c.service.location former = false) :
    (s.relocate h former).view.Reached h c (s.record h).counter := by
  have hlt : h < s.view.records.length := ht.sound.fits
  have hst := (s.bindFirst_taskEffects (t := .relocate h former) hdel
    (List.mem_singleton_self h)).steady
  have hmem := consumer_bindFirst hdel hc
  refine relocate_achieves (Q := fun u => u.Reached h c (s.record h).counter) hdel hc
    (underway_bindFirst hv ht hdel (List.mem_singleton_self h)) (fun _ hu => hu.settled)
    (fun u u' hd hs hu => hu.round hd hs hmem fun u u' hd ho hdue hmem hr =>
      hd.reached ho hdue hmem hr) fun s' hu => ?_
  have hsaw : s'.permits c.service.location former = false := by
    rw [← permits_view, hu.settled.permits, hst.permits]
    exact hformer
  have hprop : (s'.record h).properties = (s.record h).properties :=
    hu.settled.content.properties.trans (hst.content h).properties
  have hcounter : (s'.record h).counter = (s.record h).counter :=
    hu.settled.content.counter.trans (hst.content h).counter
  unfold reconsider
  dsimp only
  rw [hsaw]
  split
  · next hx => cases hx
  · split
    · cases hs : (s'.record h).properties with
      | none => exact absurd (hprop.symm.trans hs) hp
      | some p =>
        rw [← hcounter]
        exact serve_reached (hu.inRange (Nat.lt_of_lt_of_eq hlt hst.length.symm))
    · next hx =>
      -- it may not see the record under the new owner either
      refine View.reached_of_denied ?_
      rw [hu.settled.owner, permits_view]
      simpa using hx

/-- A consumer that loses the record by a change of the owner is left without a mark. -/
theorem relocate_rightful {former : Option String} (hv : s.view.Orderly H)
    (ht : (Task.relocate h former).Due H s.view) (hdel : (s.record h).deleted = false)
    (hc : c ∈ s.view.targets h)
    (hformer : s.view.permits c.service.location former = true) :
    (s.relocate h former).view.Rightful h c := by
  have hlt : h < s.view.records.length := ht.sound.fits
  have hst := (s.bindFirst_taskEffects (t := .relocate h former) hdel
    (List.mem_singleton_self h)).steady
  have hmem := consumer_bindFirst hdel hc
  refine relocate_achieves (Q := fun u => u.Rightful h c) hdel hc
    (underway_bindFirst hv ht hdel (List.mem_singleton_self h)) (fun _ hu => hu.settled)
    (fun u u' hd hs hu => hu.round hd hs hmem fun u u' hd ho hdue hmem hr =>
      hd.rightful ho hdue hmem hr) fun s' hu => ?_
  have hsaw : s'.permits c.service.location former = true := by
    rw [← permits_view, hu.settled.permits, hst.permits]
    exact hformer
  have hlt₁ : h < (s.bindFirst h (s.view.targets h)).view.records.length :=
    Nat.lt_of_lt_of_eq hlt hst.length.symm
  have hlt' := hu.inRange hlt₁
  obtain ⟨o, ho⟩ := Option.ne_none_iff_exists'.mp (s.bindFirst_owned hc hlt₁)
  have hown : (s'.view.record h).owner = some o := hu.settled.owner.trans ho
  unfold reconsider
  dsimp only
  rw [hsaw, ho]
  by_cases hsees : s'.permits c.service.location (some o) = true
  · rw [hsees]
    exact Or.inr ⟨o, hown, hsees⟩
  · rw [Bool.eq_false_iff.mpr hsees]
    left
    show ((s'.revoke h _ c).change h fun r => r.forget c.service.id).view.mark? h c = none
    rw [view_change, view_revoke]
    refine (View.mark?_change_self hlt' _ c).trans ?_
    rw [Record.watermark?_forget, if_pos rfl]

/-! ### One consumer and all that it is for -/

theorem attach_reached {pid : String} {g : Nat} {p : Properties}
    (hlive : s.directory.isLive c.service = true) (hdel : (s.record h).deleted = false)
    (hlt : h < s.view.records.length) :
    (s.attach c pid (some ⟨h, some p, g⟩)).view.Reached h c g := by
  unfold attach
  rw [hlive]
  exact introduce_reached hdel hlt

theorem attachFactory_reached {f : String} {members : List Snapshot} {g : Nat} {p : Properties}
    (hv : s.view.Orderly H) (ht : (Task.attachFactory c f members).Due H s.view)
    (hlive : s.directory.isLive c.service = true) (hdel : (s.record h).deleted = false)
    (hm : ⟨h, some p, g⟩ ∈ members) :
    (s.attachFactory c members).view.Reached h c g := by
  unfold attachFactory
  rw [hlive]
  refine foldl_achieves (K := fun u => s.view.Steady u ∧ u.Orderly H ∧
      (Task.attachFactory c f members).Due H u) (Q := fun u => u.Reached h c g)
    (fun s' m hm' hK => ?_) hm (fun s' hK => ?_) _ ⟨.refl _, hv, ht⟩
  · obtain ⟨hst, hv', ht'⟩ := hK
    have hlive' : s'.view.directory.isLive c.service = true := by
      rw [hst.directory]
      exact hlive
    have hd := s'.attachMember_taskEffects (f := f) hm' hlive'
    exact ⟨⟨hst.trans hd.steady, hd.orderly hv' ht', hd.steady.due ht'⟩,
      hd.reached hv' ht' ht'.sound.fits.1⟩
  · obtain ⟨hst, hv', ht'⟩ := hK
    exact introduce_reached ((hst.content h).deleted.trans hdel)
      (ht'.sound.recalls _ hm).1

/-- **A promise is kept** when the task runs that is the promise. -/
theorem perform_reached {t : Task} (hv : s.view.Orderly H) (ht : t.Due H s.view)
    (hahead : ∀ h g p, t = .deliver h g p → (s.record h).delivered < g) (hk : s.view.Known h)
    (hc : c ∈ s.view.targets h) (hp : (s.record h).properties ≠ none)
    (hpr : t.Promises H s.view h c) :
    ∃ g, s.view.Lasts H h g ∧ (s.perform t).view.Reached h c g := by
  have hdel := hv.undeleted hk
  have hlt := hv.known_lt hk
  have hlive := (Target.mem_resolve.mp hc).2.1
  cases t with
  | deliver h' g p =>
    obtain ⟨rfl, hl⟩ := hpr
    exact ⟨g, hl, deliver_reached hv ht hdel (hahead _ g p rfl) hc⟩
  | relocate h' former =>
    obtain ⟨rfl, hformer⟩ := hpr
    exact ⟨_, hv.lasts_counter hlt, relocate_reached hv ht hdel hc hp hformer⟩
  | attach c' pid snapshot =>
    obtain ⟨rfl, p, g, rfl, hl⟩ := hpr
    exact ⟨g, hl, attach_reached hlive hdel hlt⟩
  | attachFactory c' f members =>
    obtain ⟨rfl, p, g, hm, hl⟩ := hpr
    exact ⟨g, hl, attachFactory_reached hv ht hlive hdel hm⟩
  | retract => exact hpr.elim

end Session
end Provisioning
