import Provisioning.Proofs.Holders
import Provisioning.Proofs.Margins
import Provisioning.Proofs.Resemblance
import Provisioning.Proofs.Watermarks

/-! # Submitting a delivery again

An update that answers a generation has queued its delivery.  Whoever submits that generation of
the record again, or an earlier one, queues a task behind the delivery, with whatever properties.
When the task runs, the delivery has run before it; so the record was deleted, or its watermark
has reached the generation, and the task is dropped or skipped before it binds, calls or notes
anything.

`View.Spent` says this of a task that still waits: the record is past the generation, or a
delivery stands ahead that will bring it there.  `Resubmits` pairs a run with one that has such
tasks in addition, wherever they were submitted (`exists_resubmits`).  The two are compared step
by step (`Burdened`), and differ in these tasks and in the count of skips alone
(`resubmissions_idle`).
-/
namespace Provisioning

open Relation (ReflTransGen)

namespace View

variable {v v' v'' : View} {h : Handle} {g n : Nat} {ahead : List Task}

/-! ### Generations that are past -/

/-- A record is past a generation: it is deleted, or all consumers were served that generation or
a later one. -/
def Past (v : View) (h : Handle) (g : Nat) : Prop :=
  (v.record h).deleted = true ∨ g ≤ (v.record h).delivered

/-- A record is past a generation, or comes past it by a task that waits ahead. -/
def Spent (v : View) (ahead : List Task) (h : Handle) (g : Nat) : Prop :=
  v.Past h g ∨ ∃ n p, .deliver h n p ∈ ahead ∧ g ≤ n ∧ n ≤ (v.record h).counter

theorem Past.mono (hp : v.Past h n) (hle : g ≤ n) : v.Past h g := hp.imp_right (Nat.le_trans hle)

theorem Spent.mono (hs : v.Spent ahead h n) (hle : g ≤ n) : v.Spent ahead h g := by
  rcases hs with hp | ⟨n', p, hmem, hn, hc⟩
  · exact Or.inl (hp.mono hle)
  · exact Or.inr ⟨n', p, hmem, Nat.le_trans hle hn, hc⟩

theorem Spent.of_subset {ahead' : List Task} (hs : v.Spent ahead h g) (hsub : ahead ⊆ ahead') :
    v.Spent ahead' h g :=
  hs.imp_right fun ⟨n, p, hmem, hn⟩ => ⟨n, p, hsub hmem, hn⟩

/-- No record goes back, and none is undeleted. -/
structure Endures (v v' : View) : Prop where
  matures : v.Matures v'
  deleted : ∀ h, (v.record h).deleted = true → (v'.record h).deleted = true

theorem Endures.trans (h : v.Endures v') (h' : v'.Endures v'') : v.Endures v'' :=
  ⟨h.matures.trans h'.matures, fun i hd => h'.deleted i (h.deleted i hd)⟩

theorem Past.endures (hp : v.Past h g) (he : v.Endures v') : v'.Past h g :=
  hp.imp (he.deleted h) fun hg => Nat.le_trans hg (he.matures h).delivered

theorem Spent.endures (hs : v.Spent ahead h g) (he : v.Endures v') : v'.Spent ahead h g := by
  rcases hs with hp | ⟨n, p, hmem, hn, hc⟩
  · exact Or.inl (hp.endures he)
  · exact Or.inr ⟨n, p, hmem, hn, Nat.le_trans hc (he.matures h).counter⟩

end View

theorem TaskEffects.endures {t : Task} {v v' : View} (hd : TaskEffects t v v') : v.Endures v' :=
  ⟨hd.matures, fun i hi => (hd.steady.content i).deleted.trans hi⟩

namespace View

variable {v v' : View}

theorem Work.endures (hw : Work v v') : v.Endures v' := by
  cases hw with
  | work _ effects =>
    have he := effects.endures
    exact ⟨he.matures, he.deleted⟩

theorem works_endures (hw : ReflTransGen Work v v') : v.Endures v' := by
  induction hw with
  | refl => exact ⟨.refl v, fun _ hd => hd⟩
  | tail _ hlast ih => exact ih.trans hlast.endures

theorem Deal.endures {admits : Record → Prop} {a : Action} (hd : Deal admits a v v')
    (hv : v.Filed) : v.Endures v' := by
  refine ⟨hd.matures, ?_⟩
  cases hd with
  | nothing | around | extend => exact fun _ hd => hd
  | @call _ _ v₁ _ _ lookups amended =>
    have hlooks : Interlude none v v₁ := lookups.extends.interlude
    rcases amended with rfl | amended
    · exact hlooks.deleted
    · have hamends : Interlude none v₁ v' := amended.interlude (lookups.filed hv)
      exact (hlooks.trans hamends).deleted
  | register greetings => exact (greetings.interlude hv).deleted
  | withdraw forgotten =>
    have hforgets : Interlude none v v' :=
      interlude_of_steps (fun _ _ h => h.interlude) forgotten
    exact hforgets.deleted
  | uninstall released =>
    have hreleases : Interlude none v v' :=
      interlude_of_steps (fun _ _ h => h.interlude) released
    exact hreleases.deleted
  | submit => exact fun h hd => by rw [record_enqueue]; exact hd
  | work hw => exact hw.endures.deleted
  | stop works => exact (works_endures works).deleted

end View

namespace Session

variable {s t : Session} {h : Handle} {g n : Nat} {p : Properties}

/-! ### Deliveries -/

/-- **A delivery brings its record past the generation**, unless that is still to come. -/
theorem deliver_past (hle : g ≤ (s.record h).counter) : (s.deliver h g p).view.Past h g := by
  unfold deliver
  dsimp only
  split
  · next hdel => exact Or.inl hdel
  · split
    · next hstale => exact Or.inr (of_decide_eq_true hstale)
    · -- binding and serving leave the counter, so that the generation is not cut down
      have hserved := (s.bindFirst_furthers h ((s.record h).target.resolve s.directory)).trans
        (offers_furthers _ h (s.record h).target
          ((s.bindFirst h ((s.record h).target.resolve s.directory)).record h).owner g p
          ((s.record h).target.resolve s.directory))
      have hcounter := (hserved.content h).counter
      right
      rw [view_change]
      generalize ((s.record h).target.resolve s.directory).foldl _ _ = s' at hcounter ⊢
      rcases Nat.lt_or_ge h s'.view.records.length with hlt | hge
      · rw [View.record_change_self _ hlt]
        refine Nat.le_trans (Nat.le_min.mpr ⟨Nat.le_refl g, ?_⟩) (Nat.le_max_right _ _)
        rw [hcounter]
        exact hle
      · rw [View.record_of_length_le hge] at hcounter
        have hzero : (s.record h).counter = 0 := hcounter.symm
        rw [hzero] at hle
        exact Nat.le_trans hle (Nat.zero_le _)

/-- A delivery of a generation that is past is dropped or skipped. -/
theorem deliver_of_past (hp : s.view.Past h g) :
    s.deliver h g p = s ∨ s.deliver h g p = s.skip := by
  unfold deliver
  dsimp only
  split
  · exact Or.inl rfl
  · next hdel =>
    rcases hp with hdel' | hle
    · exact absurd hdel' hdel
    · have hstale : (s.record h).isStale g = true := decide_eq_true hle
      rw [if_pos hstale]
      exact Or.inr rfl

/-- What a task that ran stood ahead of is past, or still to come past it. -/
theorem perform_spent {task : Task} {ahead : List Task}
    (hs : s.view.Spent (ahead ++ [task]) h g) : (s.perform task).view.Spent ahead h g := by
  have he := (s.perform_taskEffects task).endures
  rcases hs with hp | ⟨n, p, hmem, hn, hc⟩
  · exact Or.inl (hp.endures he)
  rcases List.mem_append.mp hmem with hmem | hmem
  · exact View.Spent.endures (Or.inr ⟨n, p, hmem, hn, hc⟩) he
  · cases List.mem_singleton.mp hmem
    exact Or.inl ((deliver_past hc).mono hn)

/-! ### Another line of tasks -/

/-- The session with another line of tasks, and with some more skips. -/
def withLine (s : Session) (line : WorkLine Task) (skips : Nat) : Session :=
  { s with updates := line, tally := { s.tally with stale := s.tally.stale + skips } }

theorem announce_withLine (s : Session) (line : WorkLine Task) (n : Nat) (c : Change)
    (h : Handle) : (s.withLine line n).announce c h = (s.announce c h).withLine line n := by
  by_cases hl : s.listeners.isEmpty = true
  · have hl' : (s.withLine line n).listeners.isEmpty = true := hl
    rw [announce, announce, if_pos hl, if_pos hl']
  · have hl' : ¬(s.withLine line n).listeners.isEmpty = true := hl
    rw [announce, announce, if_neg hl, if_neg hl']
    rfl

theorem skip_withLine (s : Session) (line : WorkLine Task) (n : Nat) :
    (s.withLine line n).skip = s.skip.withLine line n := by
  unfold skip count withLine
  simp only [Nat.add_right_comm s.tally.stale n 1]

theorem noteCall_withLine (s : Session) (line : WorkLine Task) (n : Nat) (target : Target)
    (c : Consumer) (p : Option Properties) (o : Option Occasion) :
    (s.withLine line n).noteCall target c p o = (s.noteCall target c p o).withLine line n := by
  unfold noteCall
  cases target.call? c p <;> rfl

/-- Calls are counted in the same way, if a success counts for no skip. -/
theorem countResult_withLine (s : Session) (line : WorkLine Task) (n : Nat) {f : Tally → Tally}
    (hf : ∀ x : Tally,
      f { x with stale := x.stale + n } = { f x with stale := (f x).stale + n })
    (r : Except CallbackError Unit) :
    (s.withLine line n).countResult f r = (s.countResult f r).withLine line n := by
  cases r with
  | ok _ =>
    unfold countResult count withLine
    simp only [hf]
  | error e => rfl

/-- The workers neither look at the line nor at the skips. -/
theorem resemblance_withLine (line : WorkLine Task) (n : Nat) :
    Resemblance fun s t => t = s.withLine line n where
  sees := by
    rintro s _ rfl
    exact ⟨rfl, rfl, rfl, rfl, rfl, fun _ => rfl, fun _ => rfl⟩
  change := by
    rintro s _ rfl h f
    rfl
  assignBinding := by
    rintro s _ rfl pid location
    rfl
  announce := by
    rintro s _ rfl c h
    exact s.announce_withLine line n c h
  keepRoster := by
    rintro s _ rfl r
    rfl
  withStorage := by
    rintro s _ rfl storage
    rfl
  withNotices := by
    rintro s _ rfl notices
    rfl
  skip := by
    rintro s _ rfl
    exact s.skip_withLine line n
  deny := by
    rintro s _ rfl
    rfl
  revoke := by
    rintro s _ rfl h target c
    unfold revoke
    rw [noteCall_withLine]
    exact countResult_withLine _ line n (fun _ => rfl) _
  serve := by
    rintro s _ rfl h target c g p
    unfold serve
    dsimp only
    rw [noteCall_withLine]
    exact congrArg (fun x : Session => x.change h fun r => r.note c.service.id g)
      (countResult_withLine _ line n (fun _ => rfl) _)
  greet := by
    rintro s _ rfl pid c o
    unfold greet
    rw [noteCall_withLine]
    exact countResult_withLine _ line n (fun _ => rfl) _
  tell := by
    rintro s _ rfl notice l
    by_cases hl : s.directory.stateOf l = .active
    · have hl' : (s.withLine line n).directory.stateOf l = .active := hl
      rw [tell, tell, if_pos hl, if_pos hl']
      exact countResult_withLine { s with notifications := s.notifications ++ [⟨l, notice⟩] } line n
        (fun _ => rfl) _
    · have hl' : ¬(s.withLine line n).directory.stateOf l = .active := hl
      rw [tell, tell, if_neg hl, if_neg hl']

theorem withLine_self (s : Session) : s.withLine s.updates 0 = s := rfl

theorem updates_withLine (s : Session) (line : WorkLine Task) (n : Nat) :
    (s.withLine line n).updates = line := rfl

/-- Tasks queue no tasks, and nothing else touches the line. -/
theorem updates_perform (s : Session) (task : Task) : (s.perform task).updates = s.updates := by
  have hself := (resemblance_withLine s.updates 0).perform (Eq.symm s.withLine_self) task
  rw [hself]
  rfl

theorem updates_runNotice (s : Session) : s.runNotice.updates = s.updates := by
  have hself := (resemblance_withLine s.updates 0).runNotice (Eq.symm s.withLine_self)
  rw [hself]
  rfl

theorem updates_runNotices (s : Session) (n : Nat) : (runNotices n s).updates = s.updates := by
  have hself := (resemblance_withLine s.updates 0).runNotices (Eq.symm s.withLine_self) n
  rw [hself]
  rfl

/-- Whatever is no work adds tasks to the line, if it does anything about it, and adds the same
whatever waits. -/
theorem step_appends (s : Session) {a : Action} (hrun : a ≠ .runUpdate) (hstop : a ≠ .shutdown) :
    ∃ new, (s.step a).2.updates.waiting = s.updates.waiting ++ new ∧ ∀ waiting n,
      ((s.withLine { s.updates with waiting } n).step a).2 =
        (s.step a).2.withLine { (s.step a).2.updates with waiting := waiting ++ new } n := by
  by_cases hcall : a.isCall = true
  · obtain ⟨new, hnew, htally, hsame⟩ := s.step_waiting hcall
    refine ⟨new, hnew, fun waiting n => ?_⟩
    unfold withLine
    rw [hsame, htally]
  cases a with
  | runUpdate => exact absurd rfl hrun
  | shutdown => exact absurd rfl hstop
  | addPlugin | removePlugin | around =>
    refine ⟨[], (List.append_nil _).symm, fun waiting n => ?_⟩
    rw [List.append_nil]
    rfl
  | runNotice =>
    have hupdates : (s.step .runNotice).2.updates = s.updates := s.updates_runNotice
    rw [hupdates]
    refine ⟨[], (List.append_nil _).symm, fun waiting n => ?_⟩
    rw [List.append_nil]
    exact (resemblance_withLine _ n).runNotice rfl
  | _ => exact absurd rfl hcall

end Session

/-! ### Lines with and without resubmissions -/

/-- The tasks that are not marked. -/
def unmarked : List Bool → List Task → List Task
  | false :: marks, t :: tasks => t :: unmarked marks tasks
  | true :: marks, _ :: tasks => unmarked marks tasks
  | _, _ => []

/-- The second of two lines has the tasks of the first, in order, and between them marked ones
that deliver what is spent where they stand. -/
inductive View.Padded (v : View) : List Task → List Task → List Bool → List Task → Prop
  | nil {ahead : List Task} : Padded v ahead [] [] []
  | own {ahead plain full : List Task} {marks : List Bool} {t : Task}
    (rest : Padded v (t :: ahead) plain marks full) :
    Padded v ahead (t :: plain) (false :: marks) (t :: full)
  | again {ahead plain full : List Task} {marks : List Bool} {h : Handle} {g : Nat}
    {p : Properties} (spent : v.Spent ahead h g) (rest : Padded v ahead plain marks full) :
    Padded v ahead plain (true :: marks) (.deliver h g p :: full)

namespace View.Padded

variable {v v' : View} {ahead ahead' plain full : List Task} {marks : List Bool}
  {h : Handle} {g n : Nat} {p : Properties}

theorem length_marks (hp : v.Padded ahead plain marks full) : marks.length = full.length := by
  induction hp with
  | nil => rfl
  | own _ ih | again _ _ ih => exact congrArg (· + 1) ih

theorem unmarked (hp : v.Padded ahead plain marks full) :
    Provisioning.unmarked marks full = plain := by
  induction hp with
  | nil => rfl
  | own _ ih => exact congrArg (List.cons _) ih
  | again _ _ ih => exact ih

theorem mono (hp : v.Padded ahead plain marks full)
    (hs : ∀ more h g, v.Spent (more ++ ahead) h g → v'.Spent (more ++ ahead') h g) :
    v'.Padded ahead' plain marks full := by
  induction hp generalizing ahead' with
  | nil => exact .nil
  | @own _ _ _ _ t _ ih =>
    refine .own (ih fun more h g hsp => ?_)
    rw [List.append_cons] at hsp ⊢
    exact hs _ h g hsp
  | again spent _ ih => exact .again (hs [] _ _ spent) (ih hs)

theorem endures (hp : v.Padded ahead plain marks full) (he : v.Endures v') :
    v'.Padded ahead plain marks full :=
  hp.mono fun _ _ _ hs => hs.endures he

/-- Tasks that are queued in both lines. -/
theorem append (hp : v.Padded ahead plain marks full) (new : List Task) :
    v.Padded ahead (plain ++ new) (marks ++ List.replicate new.length false) (full ++ new) := by
  induction hp with
  | @nil ahead =>
    induction new generalizing ahead with
    | nil => exact .nil
    | cons t new ih => exact .own ih
  | own _ ih => exact .own ih
  | again spent _ ih => exact .again spent ih

/-- A resubmission is queued behind the others. -/
theorem append_again (hp : v.Padded ahead plain marks full)
    (hs : v.Spent (ahead ++ plain) h g) (p : Properties) :
    v.Padded ahead plain (marks ++ [true]) (full ++ [.deliver h g p]) := by
  induction hp with
  | nil => exact .again (hs.of_subset (by simp)) .nil
  | own _ ih => exact .own (ih (hs.of_subset List.perm_middle.subset))
  | again spent _ ih => exact .again spent (ih hs)

/-- What waits in the second line comes to be past by the first line, too. -/
theorem spent_of_mem (hp : v.Padded ahead plain marks full) (hmem : .deliver h n p ∈ full)
    (hc : n ≤ (v.record h).counter) : v.Spent (ahead ++ plain) h n := by
  induction hp with
  | nil => exact absurd hmem List.not_mem_nil
  | own _ ih =>
    rcases List.mem_cons.mp hmem with rfl | hmem
    · exact Or.inr ⟨n, p, by simp, Nat.le_refl n, hc⟩
    · exact (ih hmem).of_subset List.perm_middle.symm.subset
  | again spent _ ih =>
    rcases List.mem_cons.mp hmem with he | hmem
    · cases he
      exact spent.of_subset (List.subset_append_left _ _)
    · exact ih hmem

end View.Padded

namespace Session

variable {s t : Session} {marks : List Bool} {h : Handle} {g n : Nat} {p : Properties}

/-- A session is burdened with resubmissions that have no effect any more: it is like the first
session, but for the marked tasks in its line and for the skips that are counted. -/
structure Burdened (s : Session) (marks : List Bool) (t : Session) : Prop where
  rest : ∃ n, t = s.withLine { s.updates with waiting := t.updates.waiting } n
  line : s.view.Padded [] s.updates.waiting marks t.updates.waiting

/-- The marks that go on when the line has changed at its end: new tasks are not marked. -/
def keepMarks (marks : List Bool) (waiting : List Task) : List Bool :=
  marks.take waiting.length ++ List.replicate (waiting.length - marks.length) false

theorem keepMarks_append {marks : List Bool} {waiting : List Task}
    (hl : marks.length = waiting.length) (new : List Task) :
    keepMarks marks (waiting ++ new) = marks ++ List.replicate new.length false := by
  have hle : marks.length ≤ waiting.length + new.length := by omega
  rw [keepMarks, List.length_append, List.take_of_length_le hle, hl, Nat.add_sub_cancel_left]

theorem keepMarks_self {marks : List Bool} {waiting : List Task}
    (hl : marks.length = waiting.length) : keepMarks marks waiting = marks := by
  simpa using keepMarks_append hl []

namespace Burdened

theorem of_withLine (line : WorkLine Task) (ht : t = s.withLine line n)
    (ha : line.accepting = s.updates.accepting)
    (hp : s.view.Padded [] s.updates.waiting marks line.waiting) : s.Burdened marks t := by
  subst ht
  obtain ⟨waiting, accepting⟩ := line
  cases ha
  exact ⟨⟨n, rfl⟩, hp⟩

theorem accepting (hb : s.Burdened marks t) : t.updates.accepting = s.updates.accepting := by
  obtain ⟨n, hn⟩ := hb.rest
  rw [hn]
  rfl

theorem notices (hb : s.Burdened marks t) : t.notices = s.notices := by
  obtain ⟨n, hn⟩ := hb.rest
  rw [hn]
  rfl

theorem record_view (hb : s.Burdened marks t) (h : Handle) : t.view.record h = s.view.record h := by
  obtain ⟨n, hn⟩ := hb.rest
  rw [hn]
  rfl

/-- What is spent in the burdened session is spent without the burden. -/
theorem spent (hb : s.Burdened marks t) (hs : t.view.Spent t.updates.waiting h g) :
    s.view.Spent s.updates.waiting h g := by
  rcases hs with hp | ⟨n, p, hmem, hle, hc⟩
  · refine Or.inl ?_
    unfold View.Past at hp ⊢
    rw [← hb.record_view]
    exact hp
  · rw [hb.record_view] at hc
    exact (hb.line.spent_of_mem hmem hc).mono hle

/-- Whatever is no work is done in both sessions. -/
theorem call (hb : s.Burdened marks t) (hf : s.view.Filed) {a : Action} (hrun : a ≠ .runUpdate)
    (hstop : a ≠ .shutdown) :
    (s.step a).2.Burdened (keepMarks marks (t.step a).2.updates.waiting) (t.step a).2 := by
  obtain ⟨new, hnew, hsame⟩ := s.step_appends hrun hstop
  obtain ⟨n, hn⟩ := hb.rest
  have hstep := hsame t.updates.waiting n
  rw [← hn] at hstep
  have hwaiting : (t.step a).2.updates.waiting = t.updates.waiting ++ new := by rw [hstep]; rfl
  rw [hwaiting, keepMarks_append hb.line.length_marks new]
  refine ⟨⟨n, ?_⟩, ?_⟩
  · rw [hwaiting]
    exact hstep
  · rw [hwaiting, hnew]
    exact (hb.line.append new).endures ((step_deal hf a).endures hf)

/-- A resubmission is queued, if any task is. -/
theorem again (hb : s.Burdened marks t) (hs : s.view.Spent s.updates.waiting h g)
    (p : Properties) :
    s.Burdened (keepMarks (marks ++ [true]) (t.step (.submit (.deliver h g p))).2.updates.waiting)
      (t.step (.submit (.deliver h g p))).2 := by
  obtain ⟨n, hn⟩ := hb.rest
  have hl := hb.line.length_marks
  show s.Burdened (keepMarks _ (t.schedule (.deliver h g p)).updates.waiting) (t.schedule _)
  unfold schedule WorkLine.push
  split
  · have hl' : (marks ++ [true]).length = (t.updates.waiting ++ [Task.deliver h g p]).length := by
      simp [hl]
    dsimp only
    rw [keepMarks_self hl']
    have hrest := congrArg (fun x : Session => { x with
      updates := { x.updates with waiting := t.updates.waiting ++ [Task.deliver h g p] } }) hn
    exact ⟨⟨n, hrest⟩, hb.line.append_again hs p⟩
  · have hmarks : keepMarks (marks ++ [true]) t.updates.waiting = marks := by
      simp [keepMarks, hl]
    dsimp only
    rw [hmarks]
    exact hb

/-- No task waits in either line, or the same task is the first of both, or a resubmission is the
first of the second line. -/
theorem line_cases (hb : s.Burdened marks t) :
    (marks = [] ∧ s.updates.waiting = [] ∧ t.updates.waiting = []) ∨
    (∃ task marks' plain full, marks = false :: marks' ∧ s.updates.waiting = task :: plain ∧
      t.updates.waiting = task :: full ∧ s.view.Padded [task] plain marks' full) ∨
    (∃ h g p marks' full, marks = true :: marks' ∧ t.updates.waiting = .deliver h g p :: full ∧
      s.view.Past h g ∧ s.view.Padded [] s.updates.waiting marks' full) := by
  have hline := hb.line
  generalize s.updates.waiting = plain at hline ⊢
  generalize t.updates.waiting = full at hline ⊢
  cases hline with
  | nil => exact Or.inl ⟨rfl, rfl, rfl⟩
  | own rest => exact Or.inr (Or.inl ⟨_, _, _, _, rfl, rfl, rfl, rest⟩)
  | again spent rest =>
    rcases spent with hp | ⟨n, p, hmem, -⟩
    · exact Or.inr (Or.inr ⟨_, _, _, _, _, rfl, rfl, hp, rest⟩)
    · exact absurd hmem List.not_mem_nil

/-- The update worker runs a task that waits in both lines, or finds none. -/
theorem work (hb : s.Burdened marks t) (hm : marks.head? ≠ some true) :
    s.runUpdate.Burdened marks.tail t.runUpdate := by
  obtain ⟨n, hn⟩ := hb.rest
  rcases hb.line_cases with ⟨rfl, hw, hw'⟩ | ⟨task, marks, plain, full, rfl, hw, hw', rest⟩ |
    ⟨h, g, p, marks, full, rfl, -⟩
  · rw [s.runUpdate_idle hw, t.runUpdate_idle hw']
    exact hb
  · have hplain : s.runUpdate.updates.waiting = plain :=
      s.runUpdate_waiting.1.trans (congrArg List.tail hw)
    have hpop : ({ t with updates := t.updates.pop } : Session) =
        ({ s with updates := s.updates.pop } : Session).withLine t.updates.pop n :=
      congrArg (fun x : Session => { x with updates := t.updates.pop }) hn
    have hperform := (resemblance_withLine _ n).perform hpop task
    rw [s.runUpdate_busy hw] at hplain ⊢
    rw [t.runUpdate_busy hw']
    refine of_withLine t.updates.pop hperform ?_ ?_
    · rw [updates_perform]
      exact hb.accepting
    · have hfull : t.updates.pop.waiting = full := congrArg List.tail hw'
      rw [hplain, hfull]
      refine rest.mono fun more h g hs => ?_
      rw [List.append_nil]
      exact perform_spent (s := { s with updates := s.updates.pop }) hs
  · exact absurd rfl hm

/-- The update worker runs a resubmission, which is dropped or skipped. -/
theorem rerun (hb : s.Burdened (true :: marks) t) : s.Burdened marks t.runUpdate := by
  obtain ⟨n, hn⟩ := hb.rest
  rcases hb.line_cases with ⟨he, -⟩ | ⟨task, marks, plain, full, he, -⟩ |
    ⟨h, g, p, marks, full, he, hw', hpast, rest⟩
  · cases he
  · cases he
  · cases he
    have hpop : ({ t with updates := t.updates.pop } : Session) = s.withLine t.updates.pop n :=
      congrArg (fun x : Session => { x with updates := t.updates.pop }) hn
    have hfull : t.updates.pop.waiting = full := congrArg List.tail hw'
    rw [← hfull] at rest
    rw [t.runUpdate_busy hw', hpop]
    rcases deliver_of_past (s := s.withLine t.updates.pop n) (p := p) hpast with he | he
    · exact of_withLine t.updates.pop (n := n) he hb.accepting rest
    · exact of_withLine t.updates.pop (n := n + 1) he hb.accepting rest

end Burdened

/-- A line is worked off task by task. -/
theorem drainUpdates_busy {task : Task} {rest : List Task} (hw : s.updates.waiting = task :: rest) :
    s.drainUpdates = s.runUpdate.drainUpdates := by
  have hrest : s.runUpdate.updates.waiting = rest :=
    s.runUpdate_waiting.1.trans (congrArg List.tail hw)
  unfold drainUpdates
  rw [hrest, hw]
  rfl

theorem drainUpdates_idle (hw : s.updates.waiting = []) : s.drainUpdates = s := by
  unfold drainUpdates
  rw [hw]
  rfl

namespace Burdened

/-- When both lines are worked off, nothing is left of the burden but the skips. -/
theorem drained (hb : s.Burdened marks t) :
    s.drainUpdates.Burdened [] t.drainUpdates ∧ s.drainUpdates.updates.waiting = [] ∧
      t.drainUpdates.updates.waiting = [] := by
  induction marks generalizing s t with
  | nil =>
    rcases hb.line_cases with ⟨-, hw, hw'⟩ | ⟨_, _, _, _, he, -⟩ | ⟨_, _, _, _, _, he, -⟩
    · rw [drainUpdates_idle hw, drainUpdates_idle hw']
      exact ⟨hb, hw, hw'⟩
    · cases he
    · cases he
  | cons mark marks ih =>
    rcases hb.line_cases with ⟨he, -⟩ | ⟨task, _, plain, full, he, hw, hw', -⟩ |
      ⟨h, g, p, _, full, he, hw', -⟩
    · cases he
    · cases he
      rw [drainUpdates_busy hw, drainUpdates_busy hw']
      exact ih (hb.work fun he => by cases he)
    · cases he
      rw [drainUpdates_busy hw']
      exact ih hb.rerun

/-- Both sessions are shut down. -/
theorem shutdown (hb : s.Burdened marks t) :
    s.shutdown.Burdened (keepMarks marks t.shutdown.updates.waiting) t.shutdown := by
  have hclosed : Burdened { s with updates := s.updates.close } marks
      { t with updates := t.updates.close } := by
    obtain ⟨n, hn⟩ := hb.rest
    exact of_withLine t.updates.close (n := n)
      (congrArg (fun x : Session => { x with updates := t.updates.close }) hn) rfl
      (hb.line.mono fun _ _ _ hs => hs)
  obtain ⟨hdrained, hs, ht⟩ := hclosed.drained
  unfold Session.shutdown
  dsimp only
  generalize ({ s with updates := s.updates.close } : Session).drainUpdates = s' at *
  generalize ({ t with updates := t.updates.close } : Session).drainUpdates = t' at *
  rw [hb.accepting, hb.notices]
  split
  · rw [keepMarks_self hb.line.length_marks]
    exact hb
  · obtain ⟨n, hn⟩ := hdrained.rest
    have hsent : ({ t' with notices := t'.notices.close } : Session).drainNotices =
        ({ s' with notices := s'.notices.close } : Session).drainNotices.withLine
          { s'.updates with waiting := t'.updates.waiting } n := by
      unfold drainNotices
      rw [hdrained.notices]
      exact (resemblance_withLine _ n).runNotices
        (congrArg (fun x : Session => { x with notices := s'.notices.close }) hn) _
    have hline : ({ s' with notices := s'.notices.close } : Session).drainNotices.updates =
        s'.updates := updates_runNotices _ _
    have hmarks : keepMarks marks [] = [] := by simp [keepMarks]
    rw [hsent, updates_withLine, ht, hmarks]
    refine of_withLine { s'.updates with waiting := [] } (n := n) rfl ?_ ?_
    · exact (congrArg WorkLine.accepting hline).symm
    · show View.Padded _ [] _ [] []
      rw [hline, hs]
      exact .nil

end Burdened

/-! ### Generations that were answered -/

/-- Somewhere along the actions, an update of the record answered the generation. -/
def Returned (s : Session) (actions : List Action) (h : Handle) (n : Nat) : Prop :=
  ∃ before pid p after, actions = before ++ .update pid p :: after ∧
    ((s.run before).require pid).1 = .ok h ∧
    ((s.run before).step (.update pid p)).1 = .generation n

/-- The delivery of a change that is made is queued. -/
theorem commit_spent (hlt : h < s.view.records.length) (ha : s.view.accepting = true)
    (p : Properties) : (s.commit h p).view.Spent (s.commit h p).view.waiting h
      ((s.record h).counter + 1) := by
  have ha' : (s.view.change h fun r => r.commit p).accepting = true := ha
  rw [view_commit, View.enqueue_of_accepting _ ha']
  refine Or.inr ⟨_, _, List.mem_append_right _ List.mem_cons_self, Nat.le_refl _, ?_⟩
  show _ ≤ ((s.view.change h fun r => r.commit p).record h).counter
  rw [View.record_change_self _ hlt]
  exact Nat.le_refl _

/-- An update that answers a generation has queued its delivery. -/
theorem update_spent (hf : s.view.Filed) {pid : String} (hreq : (s.require pid).1 = .ok h)
    (hans : (s.step (.update pid p)).1 = .generation n) :
    (s.step (.update pid p)).2.view.Spent (s.step (.update pid p)).2.updates.waiting h n := by
  have hrun : s.view.accepting = true := by
    cases hrun : s.view.accepting with
    | true => rfl
    | false =>
      have hrun' : s.isRunning = false := hrun
      simp [step, answering, update, hrun', Answer.ofResult] at hans
  show (s.update pid p).2.view.Spent (s.update pid p).2.view.waiting h n
  have hok : (s.update pid p).1 = .ok n := by
    cases hr : (s.update pid p).1 with
    | ok n' =>
      simp only [step, answering, hr, Answer.ofResult, Answer.generation.injEq] at hans
      rw [hans]
    | error e => simp [step, answering, hr, Answer.ofResult] at hans
  have hcourse := s.updating pid p
  generalize s.update pid p = result at hcourse hok ⊢
  cases hcourse with
  | refused | unjoined | unstored => cases hok
  | @updated h' s₁ s₂ storage required joined stored =>
    obtain ⟨hlook, hcached⟩ := (closed_of_filed hf).require pid
    rw [required] at hlook hcached hreq
    cases hreq
    obtain ⟨hjoin, -⟩ := hlook.closed.join h
    rw [joined] at hjoin
    have hn : (s₂.record h).counter + 1 = n := by injection hok
    have h₂ := hjoin.extends.cached pid h (hcached h rfl)
    have hlt := (hjoin.closed.filed.held pid h h₂).1
    have haccepting := ((hlook.trans hjoin).extends.accepting).trans hrun
    rw [← hn]
    exact commit_spent (s := { s₂ with storage }) hlt haccepting p

theorem runUpdate_spent (hs : s.view.Spent s.view.waiting h g) :
    s.runUpdate.view.Spent s.runUpdate.view.waiting h g := by
  rw [s.runUpdate_waiting.1]
  cases hw : s.view.waiting with
  | nil =>
    rw [hw] at hs
    rw [s.runUpdate_idle hw]
    exact hs
  | cons task rest =>
    rw [s.runUpdate_busy hw]
    refine perform_spent (s := { s with updates := s.updates.pop }) (View.Spent.of_subset hs ?_)
    rw [hw]
    exact (List.perm_append_singleton task rest).symm.subset

/-- **What is spent stays so**, whatever happens. -/
theorem step_spent (hf : s.view.Filed) (hs : s.view.Spent s.view.waiting h g) (a : Action) :
    (s.step a).2.view.Spent (s.step a).2.view.waiting h g := by
  by_cases hrun : a = .runUpdate
  · subst hrun
    exact runUpdate_spent hs
  by_cases hstop : a = .shutdown
  · subst hstop
    have hall : ∀ (n : Nat) (s : Session), s.view.Spent s.view.waiting h g →
        (runUpdates n s).view.Spent (runUpdates n s).view.waiting h g := by
      intro n
      induction n with
      | zero => exact fun _ hs => hs
      | succ n ih => exact fun s hs => ih s.runUpdate (runUpdate_spent hs)
    show s.shutdown.view.Spent s.shutdown.view.waiting h g
    rcases s.shutdown_view with he | he
    · rw [he]
      exact hs
    · rw [he]
      exact hall _ { s with updates := s.updates.close } hs
  · obtain ⟨new, hnew, -⟩ := s.step_appends hrun hstop
    have hwaiting : (s.step a).2.view.waiting = s.view.waiting ++ new := hnew
    rw [hwaiting]
    exact (hs.endures ((step_deal hf a).endures hf)).of_subset (List.subset_append_left _ _)

theorem run_spent (hf : s.view.Filed) (hs : s.view.Spent s.view.waiting h g)
    (actions : List Action) :
    (s.run actions).view.Spent (s.run actions).view.waiting h g := by
  induction actions generalizing s with
  | nil => exact hs
  | cons a rest ih => exact ih ((step_deal hf a).filed hf) (step_spent hf hs a)

/-- A generation that was answered is past, or its delivery waits. -/
theorem Returned.spent (hf : s.view.Filed) {actions : List Action}
    (hr : s.Returned actions h n) :
    (s.run actions).view.Spent (s.run actions).view.waiting h n := by
  obtain ⟨before, pid, p, after, rfl, hreq, hans⟩ := hr
  have hf' := run_filed hf before
  rw [run_append]
  exact run_spent ((step_deal hf' _).filed hf') (update_spent hf' hreq hans) after

/-! ### Runs with resubmissions -/

/-- The second list of actions comes from the first one by submitting again, here and there, a
generation of a record that an update has answered by then, or an earlier one, and by the steps
of the worker on these tasks.  The marks tell which of the tasks that wait after the second list
were submitted again. -/
inductive Resubmits (s : Session) : List Action → List Action → List Bool → Prop
  | nil : Resubmits s [] [] []
  /-- Anything that is no step of the worker, in both runs. -/
  | own {plain full : List Action} {marks : List Bool} {a : Action}
    (rest : Resubmits s plain full marks) (ha : a ≠ .runUpdate) :
    Resubmits s (plain ++ [a]) (full ++ [a])
      (keepMarks marks (s.run (full ++ [a])).updates.waiting)
  /-- The worker runs a task of both lines, if any waits. -/
  | work {plain full : List Action} {marks : List Bool} (rest : Resubmits s plain full marks)
    (hm : marks.head? ≠ some true) :
    Resubmits s (plain ++ [.runUpdate]) (full ++ [.runUpdate]) marks.tail
  /-- A generation is submitted again, with any properties. -/
  | again {plain full : List Action} {marks : List Bool} {h : Handle} {g n : Nat}
    {p : Properties} (rest : Resubmits s plain full marks) (returned : s.Returned full h n)
    (hg : g ≤ n) :
    Resubmits s plain (full ++ [.submit (.deliver h g p)])
      (keepMarks (marks ++ [true]) (s.run (full ++ [.submit (.deliver h g p)])).updates.waiting)
  /-- The worker runs a task that was submitted again. -/
  | rerun {plain full : List Action} {marks : List Bool}
    (rest : Resubmits s plain full (true :: marks)) :
    Resubmits s plain (full ++ [.runUpdate]) marks

/-- Whichever submissions of a run are marked that repeat what an update has answered by then,
there is a run without them. -/
theorem exists_resubmits (s : Session) {full : List (Action × Bool)}
    (hmarked : ∀ before a after, full = before ++ (a, true) :: after → ∃ h g n p,
      a = .submit (.deliver h g p) ∧ s.Returned (before.map Prod.fst) h n ∧ g ≤ n) :
    ∃ plain marks, s.Resubmits plain (full.map Prod.fst) marks := by
  induction full using List.reverseRecOn with
  | nil => exact ⟨[], [], .nil⟩
  | append_singleton full last ih =>
    obtain ⟨plain, marks, hr⟩ := ih fun before a after he =>
      hmarked before a (after ++ [last]) (by rw [he, List.append_assoc]; rfl)
    obtain ⟨a, repeated⟩ := last
    rw [List.map_append]
    cases repeated with
    | true =>
      obtain ⟨h, g, n, p, rfl, hreturned, hg⟩ := hmarked full a [] rfl
      exact ⟨plain, _, hr.again hreturned hg⟩
    | false =>
      by_cases ha : a = .runUpdate
      · subst ha
        -- whose task the worker finds is told by the first mark
        by_cases hm : marks.head? = some true
        · obtain ⟨marks, rfl⟩ := List.head?_eq_some_iff.mp hm
          exact ⟨plain, marks, hr.rerun⟩
        · exact ⟨_, _, hr.work hm⟩
      · exact ⟨_, _, hr.own ha⟩

theorem Resubmits.burdened (hf : s.view.Filed) (hq : s.updates.waiting = [])
    {plain full : List Action} (hr : s.Resubmits plain full marks) :
    (s.run plain).Burdened marks (s.run full) := by
  induction hr with
  | nil =>
    refine .of_withLine s.updates (n := 0) rfl rfl ?_
    show View.Padded _ [] s.updates.waiting [] s.updates.waiting
    rw [hq]
    exact .nil
  | @own plain full marks a _ ha ih =>
    rw [run_concat, run_concat]
    by_cases hstop : a = .shutdown
    · subst hstop
      exact ih.shutdown
    · exact ih.call (run_filed hf plain) ha hstop
  | work _ hm ih =>
    rw [run_concat, run_concat]
    exact ih.work hm
  | again _ returned hg ih =>
    rw [run_concat]
    exact ih.again (ih.spent ((returned.spent hf).mono hg)) _
  | rerun _ ih =>
    rw [run_concat]
    exact ih.rerun

/-- **Submitting again changes nothing.**  A run with resubmissions makes the callbacks of the run
without them, and comes to the same session, but for the resubmissions that still wait and for
the skips that are counted. -/
theorem resubmissions_idle {w : World} {settings : Settings} (hstart : start w settings = .ok s)
    {plain full : List Action} (hr : s.Resubmits plain full marks) :
    unmarked marks (s.run full).updates.waiting = (s.run plain).updates.waiting ∧
      ∃ n, s.run full = { s.run plain with
        updates := { (s.run plain).updates with waiting := (s.run full).updates.waiting }
        tally := { (s.run plain).tally with stale := (s.run plain).tally.stale + n } } := by
  have hidle : s.updates.waiting = [] := congrArg View.waiting (start_view hstart)
  have hb := hr.burdened (start_filed hstart) hidle
  exact ⟨hb.line.unmarked, hb.rest⟩

/-- The configuration is made, updated and delivered to its consumer. -/
def once : List Action :=
  [.around (.addConsumer .single "here" ["pid"] 0), .getOrCreate "pid" none,
    .update "pid" .empty, .runUpdate]

/-- The delivery is submitted again while it waits, and an older one when it was made. -/
def thrice : List Action :=
  [.around (.addConsumer .single "here" ["pid"] 0), .getOrCreate "pid" none,
    .update "pid" .empty, .submit (.deliver 0 1 .empty), .runUpdate,
    .submit (.deliver 0 0 .empty), .runUpdate, .runUpdate]

theorem resubmits_thrice {s : Session} (hs : start {} {} = .ok s) :
    s.Resubmits once thrice [] := by
  obtain ⟨h₁, h₂, h₃, h₄, h₆⟩ : keepMarks [] (s.run (thrice.take 1)).updates.waiting = [] ∧
      keepMarks [] (s.run (thrice.take 2)).updates.waiting = [] ∧
      keepMarks [] (s.run (thrice.take 3)).updates.waiting = [false] ∧
      keepMarks [false, true] (s.run (thrice.take 4)).updates.waiting = [false, true] ∧
      keepMarks [true, true] (s.run (thrice.take 6)).updates.waiting = [true, true] := by
    cases hs
    exact ⟨rfl, rfl, rfl, rfl, rfl⟩
  have hreturned : ∀ after, s.Returned (thrice.take 3 ++ after) 0 1 := by
    cases hs
    exact fun after => ⟨thrice.take 2, "pid", .empty, after, rfl, rfl, rfl⟩
  have hplaced : s.Resubmits (once.take 1) (thrice.take 1) [] := by
    rw [← h₁]
    exact Resubmits.nil.own nofun
  have hmade : s.Resubmits (once.take 2) (thrice.take 2) [] := by
    rw [← h₂]
    exact hplaced.own (a := .getOrCreate "pid" none) nofun
  have hupdated : s.Resubmits (once.take 3) (thrice.take 3) [false] := by
    rw [← h₃]
    exact hmade.own (a := .update "pid" .empty) nofun
  have hsubmitted : s.Resubmits (once.take 3) (thrice.take 4) [false, true] := by
    rw [← h₄]
    exact hupdated.again (p := .empty) (hreturned []) (Nat.le_refl 1)
  have hdelivered : s.Resubmits once (thrice.take 5) [true] := hsubmitted.work nofun
  have hbehind : s.Resubmits once (thrice.take 6) [true, true] := by
    rw [← h₆]
    exact hdelivered.again (p := .empty) (hreturned ((thrice.drop 3).take 2)) (Nat.zero_le 1)
  exact hbehind.rerun.rerun

/-- The consumer is called once in both runs, and the second one counts two skips more. -/
theorem resubmissions_idle_thrice :
    ∃ s n, start {} {} = .ok s ∧ s.Resubmits once thrice [] ∧
      s.run thrice = { s.run once with
        updates := { (s.run once).updates with waiting := (s.run thrice).updates.waiting }
        tally := { (s.run once).tally with stale := (s.run once).tally.stale + n } } ∧
      (s.run once).tally = { delivered := 1 } ∧
      (s.run thrice).tally = { delivered := 1, stale := 2 } := by
  obtain ⟨s, hs⟩ : ∃ s, start {} {} = .ok s := ⟨_, rfl⟩
  obtain ⟨-, n, hn⟩ := resubmissions_idle hs (resubmits_thrice hs)
  refine ⟨s, n, hs, resubmits_thrice hs, hn, ?_⟩
  cases hs
  exact ⟨rfl, rfl⟩

end Session
end Provisioning
