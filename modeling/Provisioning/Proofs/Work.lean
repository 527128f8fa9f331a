import Provisioning.Proofs.Fulfilment

/-! # Promises are kept by work

A step of the update worker runs the task that waits longest.  What the other tasks were promises
of stays promised, and what this one was a promise of is done.  One kind of callback does not
agree with the marks: the greeting that was captured when a record had no properties, and comes
when the consumer has taken some already.
-/
namespace Provisioning

variable {H : History} {late late' : Handle → Consumer → List Call → Prop}

namespace View

/-- A consumer is about to be told that a record has no properties, although the consumer took
some of them. -/
def LateGreeting (v : View) (h : Handle) (c : Consumer) : Prop :=
  ∃ pid g rest, v.waiting = .attach c pid (some ⟨h, none, g⟩) :: rest ∧
    v.directory.isLive c.service = true ∧ (v.record h).deleted = false ∧
      v.permits c.service.location (v.record h).owner = true ∧ v.mark? h c ≠ none

variable {v v' : View} {h : Handle} {c : Consumer}

theorem Heard.late_mono (hh : v.Heard H h c late)
    (hlate : ∀ words, late h c words → late' h c words) : v.Heard H h c late' :=
  ⟨hh.unmarked, fun w hw => (hh.marked w hw).imp_right (hlate _)⟩

/-- Whoever may see a record may have seen it before a task ran. -/
theorem Steady.permitted (hst : v.Steady v')
    (hp : v'.permits c.service.location (v'.record h).owner = true) :
    v.permits c.service.location (v.record h).owner = true := by
  cases ho : (v.record h).owner with
  | none => rfl
  | some o =>
    rw [hst.owned h o ho, hst.permits] at hp
    exact hp

/-- A consumer that was reached and may see the record has the generation. -/
theorem Reached.taken {g : Nat} (hr : v.Reached h c g)
    (hp : v.permits c.service.location (v.record h).owner = true) :
    ∃ w, v.mark? h c = some w ∧ g ≤ w := by
  rcases hr with hw | ⟨o, ho, hno⟩
  · exact hw
  · rw [ho, hno] at hp
    cases hp

theorem Steady.lasts (hst : v.Steady v') {g : Nat} (hl : v.Lasts H h g) : v'.Lasts H h g := by
  unfold Lasts
  rw [(hst.content h).counter, (hst.content h).properties]
  exact hl

theorem Reached.of_mark {w : Nat} (hw : v.mark? h c = some w) : v.Reached h c w :=
  Or.inl ⟨w, hw, Nat.le_refl w⟩

/-- A session while a task is running: what is owed to consumers is promised by the tasks that
wait or by this one. -/
structure Running (H : History) (t : Task) (late : Handle → Consumer → List Call → Prop)
    (v : View) : Prop where
  orderly : v.Orderly H
  due : t.Due H v
  ahead : ∀ h g p, t = .deliver h g p → (v.record h).delivered < g
  promised : ∀ h c, v.Known h → c ∈ v.targets h →
    v.permits c.service.location (v.record h).owner = true → (v.record h).properties ≠ none →
      (∃ w, v.mark? h c = some w ∧ v.Lasts H h w) ∨ t.Promises H v h c ∨
        ∃ t' ∈ v.waiting, t'.Promises H v h c
  withheld : ∀ h c, v.Known h → c ∈ v.targets h → v.Rightful h c ∨
    (∃ former, t = .relocate h former ∧ v.permits c.service.location former = true) ∨
      ∃ former, .relocate h former ∈ v.waiting ∧ v.permits c.service.location former = true
  heard : ∀ h c, v.Known h → c ∈ v.directory.consumers →
    v.directory.isLive c.service = true → v.Heard H h c late

theorem Pledge.pop {t : Task} {rest : List Task} (hv : v.Pledge H (fun _ _ => False) late)
    (hw : v.waiting = t :: rest) : ({ v with waiting := rest } : View).Running H t late := by
  obtain ⟨hord, hdue, hahead⟩ := hv.toOrderly.pop hw
  refine ⟨hord, hdue, hahead, fun h c hk hc hperm hp => ?_, fun h c hk hc => ?_,
    fun h c hk hc hl => ?_⟩
  · rcases hv.promised h c hk hc hperm hp id with hmark | ⟨t', ht', hpr⟩
    · exact Or.inl hmark
    · have hpr' : t'.Promises H { v with waiting := rest } h c :=
        hpr.mono (fun _ => rfl) fun _ hl => hl
      rw [hw] at ht'
      rcases List.mem_cons.mp ht' with rfl | ht'
      · exact Or.inr (Or.inl hpr')
      · exact Or.inr (Or.inr ⟨t', ht', hpr'⟩)
  · rcases hv.withheld h c hk hc with hr | ⟨former, ht', hp⟩
    · exact Or.inl hr
    · rw [hw] at ht'
      rcases List.mem_cons.mp ht' with rfl | ht'
      · exact Or.inr (Or.inl ⟨former, rfl, hp⟩)
      · exact Or.inr (Or.inr ⟨former, ht', hp⟩)
  · obtain ⟨hun, hmarked⟩ := hv.heard h c hk hc hl
    exact ⟨hun, hmarked⟩

/-! ### When nothing waits -/

/-- What a consumer that may see a record has heard last. -/
theorem Pledge.served (hv : v.Pledge H (fun _ _ => False) late) (hw : v.waiting = [])
    (hk : v.Known h) (hc : c ∈ v.targets h) {p : Properties}
    (hp : (v.record h).properties = some p)
    (hperm : v.permits c.service.location (v.record h).owner = true) :
    (∃ k, (v.words h c).getLast? = some k ∧ k.Hands p) ∨ late h c (v.words h c) := by
  have hne : (v.record h).properties ≠ none := by
    rw [hp]
    exact Option.some_ne_none p
  obtain ⟨hmem, hlive, -, -⟩ := Target.mem_resolve.mp hc
  rcases hv.promised h c hk hc hperm hne id with ⟨w, hmark, hl⟩ | ⟨t, ht, -⟩
  · rcases (hv.heard h c hk hmem hlive).marked w hmark with ⟨k, q, hlast, hh, hands⟩ | hlate
    · -- what the mark stands for is what the record holds
      rw [hl.eq (hv.marked h _ w hmark).1, hp] at hh
      cases hh
      exact Or.inl ⟨k, hlast, hands⟩
    · exact Or.inr hlate
  · rw [hw] at ht
    exact absurd ht List.not_mem_nil

/-- What a consumer has heard last that may not see a record, or of which there is nothing to
see. -/
theorem Pledge.unserved (hv : v.Pledge H (fun _ _ => False) late) (hw : v.waiting = [])
    (hk : v.Known h) (hc : c ∈ v.targets h)
    (hnot : (v.record h).properties = none ∨
      v.permits c.service.location (v.record h).owner = false) (k : Call)
    (hlast : (v.words h c).getLast? = some k) : k.message.properties? = none := by
  obtain ⟨hmem, hlive, -, -⟩ := Target.mem_resolve.mp hc
  refine (hv.heard h c hk hmem hlive).unmarked ?_ k hlast
  rcases hnot with hp | hperm
  · -- whoever has a mark has it for properties
    by_contra hne
    obtain ⟨w, hmark⟩ := Option.ne_none_iff_exists'.mp hne
    obtain ⟨hle, -, hh⟩ := hv.marked h _ w hmark
    exact hv.lasting h w hle hh hp
  · rcases hv.withheld h c hk hc with (hn | ⟨o, ho, hp⟩) | ⟨former, ht, -⟩
    · exact hn
    · rw [ho, hp] at hperm
      cases hperm
    · rw [hw] at ht
      exact absurd ht List.not_mem_nil

end View

namespace Session

variable {s : Session}

/-- What the greeting about a record without properties comes to. -/
theorem attach_empty_view (c : Consumer) (pid : String) (h : Handle) (g : Nat) :
    (s.attach c pid (some ⟨h, none, g⟩)).view =
      if s.directory.isLive c.service = true ∧ (s.record h).deleted = false ∧
        s.permits c.service.location (s.record h).owner = true then
        (s.view.change h fun r => r.bind c.service.location).hear (.single pid) c none
          (some ⟨h, (s.bind h c.service.location).record h, none⟩)
      else s.view := by
  unfold attach
  split
  · next hdead =>
    rw [if_neg]
    rintro ⟨hlive, -⟩
    rw [hlive] at hdead
    cases hdead
  · next hlive =>
    show (s.introduceEmpty h pid c).view = _
    unfold introduceEmpty
    dsimp only
    split
    · next hdel =>
      rw [if_neg]
      rintro ⟨-, hx, -⟩
      rw [hx] at hdel
      cases hdel
    · next hdel =>
      split
      · next hperm =>
        rw [if_pos ⟨by simpa using hlive, by simpa using hdel, hperm⟩, view_greet, view_bind]
      · next hperm => rw [if_neg fun hx => hperm hx.2.2, view_deny]

/-- Running a task leaves callbacks and marks in agreement, or a greeting came too late. -/
theorem perform_heard {t : Task} {h : Handle} {c : Consumer} (hv : s.view.Orderly H)
    (ht : t.Due H s.view) (hk : s.view.Known h) (hc : c ∈ s.view.directory.consumers)
    (hmono : ∀ words, late h c words → late' h c words)
    (hlate : ∀ pid g, t = .attach c pid (some ⟨h, none, g⟩) →
      s.directory.isLive c.service = true → (s.record h).deleted = false →
        s.permits c.service.location (s.record h).owner = true → s.view.mark? h c ≠ none →
          late' h c ((s.perform t).view.words h c))
    (hh : s.view.Heard H h c late) : (s.perform t).view.Heard H h c late' := by
  by_cases hempty : ∃ c₀ pid h₀ g, t = .attach c₀ pid (some ⟨h₀, none, g⟩)
  · obtain ⟨c₀, pid, h₀, g, rfl⟩ := hempty
    have hkind : c₀.kind = .single := ht.sound.fits.2
    show (s.attach c₀ pid (some ⟨h₀, none, g⟩)).view.Heard H h c late'
    have hview := s.attach_empty_view c₀ pid h₀ g
    split at hview
    · next hmay =>
      obtain ⟨hlive, hdel, hperm⟩ := hmay
      have hmark : (s.attach c₀ pid (some ⟨h₀, none, g⟩)).view.mark? h c = s.view.mark? h c := by
        rw [hview]
        exact View.mark?_bind _ h
      by_cases he : h = h₀ ∧ c = c₀
      · obtain ⟨rfl, rfl⟩ := he
        have hwords : (s.attach c pid (some ⟨h, none, g⟩)).view.words h c =
            s.view.words h c ++ [⟨c, (Target.single pid).message none,
              some ⟨h, (s.bind h c.service.location).record h, none⟩⟩] := by
          rw [hview]
          exact View.words_hear_self rfl hkind rfl
        by_cases hn : s.view.mark? h c = none
        · -- the greeting comes in time
          exact View.heard_of_none (hmark.trans hn) hwords
            ((Target.single pid).properties?_message none)
        · refine ⟨fun hn' => absurd (hmark.symm.trans hn') hn, fun w hw => Or.inr ?_⟩
          exact hlate pid g rfl hlive hdel hperm hn
      · refine (hh.late_mono hmono).other hmark ?_
        rw [hview]
        refine View.words_hear_other fun hcc o ho hr => he ⟨?_, hcc.symm⟩
        cases ho
        exact hr.symm
    · rw [hview]
      exact hh.late_mono hmono
  · refine TaskEffects.heard (s.perform_taskEffects t) hv ht (fun c₀ pid h₀ g he => ?_) hk hc
      (hh.late_mono hmono)
    exact hempty ⟨c₀, pid, h₀, g, he⟩

/-- What the running task was a promise of is done, and all other promises stand. -/
theorem perform_pledge {t : Task} (hv : s.view.Running H t late)
    (hmono : ∀ h c words, late h c words → late' h c words)
    (hlate : ∀ h c pid g, t = .attach c pid (some ⟨h, none, g⟩) →
      s.directory.isLive c.service = true → (s.record h).deleted = false →
        s.permits c.service.location (s.record h).owner = true → s.view.mark? h c ≠ none →
          late' h c ((s.perform t).view.words h c)) :
    (s.perform t).view.Pledge H (fun _ _ => False) late' := by
  have hd := s.perform_taskEffects t
  have hst := hd.steady
  refine ⟨hd.orderly hv.orderly hv.due, fun h c hk hc hperm hp _ => ?_, fun h c hk hc => ?_,
    fun h c hk hc hl => ?_⟩
  · rw [hst.known] at hk
    rw [hst.targets] at hc
    rw [(hst.content h).properties] at hp
    have hmem := (Target.mem_resolve.mp hc).1
    have hkept : ∀ g, s.view.Lasts H h g → (s.perform t).view.Reached h c g →
        ∃ w, (s.perform t).view.mark? h c = some w ∧ (s.perform t).view.Lasts H h w := by
      intro g hl hr
      obtain ⟨w, hw, hle⟩ := hr.taken hperm
      exact ⟨w, hw, (hst.lasts hl).le hle⟩
    rcases hv.promised h c hk hc (hst.permitted hperm) hp with ⟨w, hw, hl⟩ | hpr | ⟨t', ht', hpr⟩
    · -- what the consumer took it keeps
      exact Or.inl (hkept w hl (hd.reached hv.orderly hv.due hmem (.of_mark hw)))
    · -- the promise was this task
      obtain ⟨g, hl, hr⟩ := perform_reached hv.orderly hv.due hv.ahead hk hc hp hpr
      exact Or.inl (hkept g hl hr)
    · refine Or.inr ⟨t', ?_, hpr.mono (hst.permits _) fun _ => hst.lasts⟩
      rw [hst.waiting]
      exact ht'
  · rw [hst.known] at hk
    rw [hst.targets] at hc
    have hmem := (Target.mem_resolve.mp hc).1
    rcases hv.withheld h c hk hc with hr | ⟨former, rfl, hp⟩ | ⟨former, ht', hp⟩
    · exact Or.inl (hd.rightful hv.orderly hv.due hmem hr)
    · exact Or.inl (relocate_rightful hv.orderly hv.due (hv.orderly.undeleted hk) hc hp)
    · refine Or.inr ⟨former, ?_, (hst.permits _ _).trans hp⟩
      rw [hst.waiting]
      exact ht'
  · rw [hst.known] at hk
    rw [hst.directory] at hc hl
    exact perform_heard hv.orderly hv.due hk hc (hmono h c) (hlate h c) (hv.heard h c hk hc hl)

/-- **Work breaks no promise.** -/
theorem runUpdate_pledge (hv : s.view.Pledge H (fun _ _ => False) late)
    (hmono : ∀ h c words, late h c words → late' h c words)
    (hlate : ∀ h c, s.view.LateGreeting h c → late' h c (s.runUpdate.view.words h c)) :
    s.runUpdate.view.Pledge H (fun _ _ => False) late' := by
  cases hw : s.view.waiting with
  | nil =>
    rw [s.runUpdate_idle hw]
    exact { hv with heard := fun h c hk hc hl => (hv.heard h c hk hc hl).late_mono (hmono h c) }
  | cons t rest =>
    rw [s.runUpdate_busy hw] at hlate ⊢
    refine perform_pledge (s.view_pop hw ▸ hv.pop hw) hmono
      fun h c pid g he hlive hdel hperm hn => ?_
    subst he
    exact hlate h c ⟨pid, g, rest, hw, hlive, hdel, hperm, hn⟩

/-- A greeting that comes too late is the last that the consumer has heard. -/
theorem late_greeting_word {h : Handle} {c : Consumer} (hv : s.view.Orderly H)
    (hl : s.view.LateGreeting h c) :
    ∃ before k, s.runUpdate.view.words h c = before ++ [k] ∧ k.message.properties? = none := by
  obtain ⟨pid, g, rest, hw, hlive, hdel, hperm, -⟩ := hl
  have hfits := (hv.sound (.attach c pid (some ⟨h, none, g⟩)) (hw ▸ List.mem_cons_self)).fits
  have hkind : c.kind = .single := hfits.2
  rw [s.runUpdate_busy hw]
  generalize hs₀ : ({ s with updates := s.updates.pop } : Session) = s₀
  have hview := s₀.attach_empty_view c pid h g
  rw [if_pos (by rw [← hs₀]; exact ⟨hlive, hdel, hperm⟩)] at hview
  refine ⟨s₀.view.words h c, ⟨c, (Target.single pid).message none,
    some ⟨h, (s₀.bind h c.service.location).record h, none⟩⟩, ?_,
    (Target.single pid).properties?_message none⟩
  show (s₀.attach c pid (some ⟨h, none, g⟩)).view.words h c = _
  rw [hview]
  exact View.words_hear_self rfl hkind rfl

end Session
end Provisioning
