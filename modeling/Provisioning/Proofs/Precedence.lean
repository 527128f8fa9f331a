import Provisioning.Proofs.Resemblance
import Provisioning.Proofs.Writing

/-! # Precedence among targets

Which consumers a configuration is delivered to, and which of them first, follows from the consumers
that the directory answers with, and not from the order in which it lists them.  The order of
delivery is strict and separates any two registrations, so that a list of consumers can be sorted by
it in one way only (`Target.select_perm`).  A delivery goes through its targets in that order: the
first of them takes the binding, and each is called or passed over without regard to the others
(`InTurn`).

Two directories that know the same consumers in different orders are told apart by no task at all
(`resemblance_withConsumers`).
-/
namespace Provisioning

/-! ### The order of delivery -/

/-- A consumer is served before another one: it has the higher ranking, or the same ranking and the
earlier registration. -/
def Consumer.Before (c e : Consumer) : Prop :=
  e.service.ranking < c.service.ranking ∨
    c.service.ranking = e.service.ranking ∧ c.service.id < e.service.id

namespace Consumer.Before

variable {c e f : Consumer}

theorem iff_precedes : c.service.precedes e.service = true ↔ c.Before e := by
  simp [Service.precedes, Consumer.Before]

/-- Whoever need not be behind one need not be behind whoever need not be in front of that one. -/
theorem not_trans (h : ¬e.Before c) (h' : ¬f.Before e) : ¬f.Before c := by
  unfold Consumer.Before at *
  omega

theorem asymm (h : c.Before e) : ¬e.Before c := by
  unfold Consumer.Before at *
  omega

theorem total (hne : c.service.id ≠ e.service.id) : c.Before e ∨ e.Before c := by
  unfold Consumer.Before
  omega

end Consumer.Before

/-! ### Targets -/

namespace Target

variable (t : Target) (d : Directory) {answer answer' : List Consumer}

theorem mem_select {c : Consumer} :
    c ∈ t.select d answer ↔ c ∈ answer ∧ c.kind = t.kind ∧ d.isLive c.service = true := by
  rw [select, Ranked.mem_sort, List.mem_filter, Bool.and_eq_true, beq_iff_eq]

theorem select_nodup (distinct : (answer.map fun c => c.service.id).Nodup) :
    ((t.select d answer).map fun c => c.service.id).Nodup := by
  rw [select, Ranked.sort_eq_insertionSort]
  refine ((List.perm_insertionSort _ _).map _).nodup_iff.mpr ?_
  exact distinct.sublist (List.filter_sublist.map _)

theorem select_pairwise (distinct : (answer.map fun c => c.service.id).Nodup) :
    (t.select d answer).Pairwise Consumer.Before := by
  let r : Consumer → Consumer → Prop := fun c e => e.service.precedes c.service = false
  have hr : ∀ {c e}, r c e ↔ ¬e.Before c := by
    simp [r, ← Consumer.Before.iff_precedes]
  have : Std.Total r := ⟨fun c e => by simpa only [hr] using not_and_or.mp fun h => h.1.asymm h.2⟩
  have : IsTrans Consumer r :=
    ⟨fun c e f hce hef => hr.mpr (Consumer.Before.not_trans (hr.mp hce) (hr.mp hef))⟩
  have hids := List.pairwise_map.mp (t.select_nodup d distinct)
  unfold select at hids ⊢
  rw [Ranked.sort_eq_insertionSort] at hids ⊢
  refine ((List.pairwise_insertionSort r _).and hids).imp fun h => ?_
  exact (Consumer.Before.total h.2).resolve_right (hr.mp h.1)

/-- The order of the answer does not matter: both lists of targets are sorted, and there is one way
only to sort the same consumers. -/
theorem select_perm (distinct : (answer.map fun c => c.service.id).Nodup)
    (hperm : answer'.Perm answer) : t.select d answer' = t.select d answer := by
  have hdistinct' : (answer'.map fun c => c.service.id).Nodup :=
    (hperm.map _).nodup_iff.mpr distinct
  refine List.Perm.eq_of_pairwise ?_ (t.select_pairwise d hdistinct')
    (t.select_pairwise d distinct) ?_
  · intro c e _ _ h h'
    exact absurd h' h.asymm
  · rw [select, select, Ranked.sort_eq_insertionSort, Ranked.sort_eq_insertionSort]
    exact (List.perm_insertionSort _ _).trans
      ((hperm.filter _).trans (List.perm_insertionSort _ _).symm)

/-- A directory that knows the same consumers in another order has the same targets. -/
theorem resolve_perm {d : Directory} {consumers : List Consumer}
    (distinct : (d.consumers.map fun c => c.service.id).Nodup)
    (hperm : consumers.Perm d.consumers) :
    t.resolve { d with consumers } = t.resolve d := by
  have hfound : (Directory.find { d with consumers } t.identity t.kind).Perm
      (d.find t.identity t.kind) := hperm.filter _
  exact t.select_perm d (distinct.sublist (List.filter_sublist.map _)) hfound

end Target

theorem Record.deliveredTo_note_ne (r : Record) {service service' : Nat} (hne : service' ≠ service)
    (g g' : Nat) : (r.note service g).deliveredTo service' g' = r.deliveredTo service' g' := by
  unfold Record.deliveredTo
  rw [r.watermark?_note, if_neg hne]

namespace Session

/-! ### Calls in turn -/

/-- Up to a later session the given consumers were called, in this order. -/
def Calls (s s' : Session) (called : List Consumer) : Prop :=
  ∃ made, s'.calls = s.calls ++ made ∧ made.map Call.consumer = called

variable {s s' s'' : Session} {h : Handle} {t : Target} {owner : Option String} {g : Nat}
  {c e : Consumer} {answer : List Consumer}

theorem Calls.of_eq (h : s'.calls = s.calls) : s.Calls s' [] :=
  ⟨[], by rw [h, List.append_nil], rfl⟩

theorem Calls.trans {called called' : List Consumer} (h : s.Calls s' called)
    (h' : s'.Calls s'' called') : s.Calls s'' (called ++ called') := by
  obtain ⟨made, hm, rfl⟩ := h
  obtain ⟨made', hm', rfl⟩ := h'
  exact ⟨made ++ made', by rw [hm', hm, List.append_assoc], List.map_append⟩

variable (s)

theorem serve_calls (p : Properties) (hkind : c.kind = t.kind) :
    s.Calls (s.serve h t c g p) [c] := by
  have hcalls : (s.serve h t c g p).calls = s.calls ++
      ((t.call? c (some (s.plugins.run t.identity c.service p))).map fun m =>
        ⟨c, m, some ⟨h, s.record h, some (p, g)⟩⟩).toList :=
    congrArg View.calls (s.view_serve h t c g p)
  refine ⟨_, hcalls, ?_⟩
  rw [Target.call?, if_pos (beq_iff_eq.mpr hkind)]
  rfl

/-- Whether a consumer lacks a generation of a record and may see what the owner owns. -/
def isDue (h : Handle) (owner : Option String) (g : Nat) (c : Consumer) : Bool :=
  !(s.record h).deliveredTo c.service.id g && s.permits c.service.location owner

/-- Serving one consumer decides nothing about the others. -/
theorem isDue_serve (h : Handle) (t : Target) (owner : Option String) (g : Nat) (p : Properties)
    (hne : e.service.id ≠ c.service.id) :
    (s.serve h t c g p).isDue h owner g e = s.isDue h owner g e := by
  have hview := s.view_serve h t c g p
  have haccess : (s.serve h t c g p).access = s.access := congrArg View.access hview
  have hseen : ((s.serve h t c g p).record h).deliveredTo e.service.id g =
      (s.record h).deliveredTo e.service.id g := by
    rw [← record_view, hview]
    exact View.record_change_of_eq _ (q := fun r => r.deliveredTo e.service.id g)
      (fun r => r.deliveredTo_note_ne hne g g) h h
  unfold isDue permits
  rw [hseen, haccess]

/-- An offer calls a consumer that is due and passes over another one, and it decides nothing about
the others. -/
theorem offer_calls (h : Handle) (owner : Option String) (g : Nat) (p : Properties)
    (hkind : c.kind = t.kind) :
    s.Calls (s.offer h t owner g p c) (if s.isDue h owner g c then [c] else []) ∧
      ∀ e : Consumer, e.service.id ≠ c.service.id →
        (s.offer h t owner g p c).isDue h owner g e = s.isDue h owner g e := by
  unfold offer
  by_cases hseen : (s.record h).deliveredTo c.service.id g = true
  · have hdue : s.isDue h owner g c = false := by simp [isDue, hseen]
    simp only [hseen, hdue]
    exact ⟨.of_eq rfl, fun _ _ => rfl⟩
  · by_cases hsees : s.permits c.service.location owner = true
    · have hdue : s.isDue h owner g c = true := by simp [isDue, hseen, hsees]
      simp only [hseen, hsees, hdue]
      exact ⟨s.serve_calls p hkind, fun e hne => s.isDue_serve h t owner g p hne⟩
    · have hdue : s.isDue h owner g c = false := by simp [isDue, hsees]
      simp only [hseen, hsees, hdue]
      exact ⟨.of_eq rfl, fun _ _ => rfl⟩

/-- Of several consumers that are offered a generation one after the other, those are called that
are due at the start, in their order. -/
theorem offers_calls (h : Handle) (owner : Option String) (g : Nat) (p : Properties)
    {l : List Consumer}
    (hkind : ∀ c ∈ l, c.kind = t.kind) (distinct : (l.map fun c => c.service.id).Nodup) :
    s.Calls (l.foldl (fun s' c => s'.offer h t owner g p c) s) (l.filter (s.isDue h owner g)) := by
  induction l generalizing s with
  | nil => exact .of_eq rfl
  | cons c rest ih =>
    rw [List.map_cons, List.nodup_cons] at distinct
    obtain ⟨hcalls, hothers⟩ := s.offer_calls h owner g p (hkind c List.mem_cons_self)
    have hrest := ih (s.offer h t owner g p c) (fun e he => hkind e (List.mem_cons_of_mem c he))
      distinct.2
    have hsame : rest.filter ((s.offer h t owner g p c).isDue h owner g) =
        rest.filter (s.isDue h owner g) := by
      refine List.filter_congr fun e he => hothers e fun hid => distinct.1 ?_
      rw [← hid]
      exact List.mem_map_of_mem he
    have hcons : (if s.isDue h owner g c then [c] else []) ++ rest.filter (s.isDue h owner g) =
        (c :: rest).filter (s.isDue h owner g) := by
      rw [List.filter_cons]
      split <;> rfl
    rw [← hcons, ← hsame]
    exact hcalls.trans hrest

/-! ### The binding -/

/-- The location of the first of some targets. -/
def firstLocation? (targets : List Consumer) : Option String :=
  targets.head?.map fun c => c.service.location

theorem bindings_bind (h : Handle) (location : String) :
    (s.bind h location).bindings.get? (s.record h).pid =
      if (s.record h).owner = none then some location else s.bindings.get? (s.record h).pid := by
  unfold bind
  by_cases howner : (s.record h).owner = none
  · rw [if_pos howner, howner, if_neg (by simp), (announce_sameButMarks _ _ _).bindings]
    refine (s.bindings.get?_assign (s.record h).pid (s.record h).pid (some location)).trans ?_
    rw [if_pos rfl]
  · rw [if_neg howner, if_pos (Option.isSome_iff_ne_none.mpr howner)]

/-- What binding a record to the first of its targets does. -/
theorem bindFirst_spec (h : Handle) (targets : List Consumer) :
    (h < s.records.length → ((s.bindFirst h targets).record h).owner =
      (s.record h).owner.or (firstLocation? targets)) ∧
    (s.bindFirst h targets).bindings.get? (s.record h).pid =
      (if (s.record h).owner = none then
        (firstLocation? targets).or (s.bindings.get? (s.record h).pid)
      else s.bindings.get? (s.record h).pid) ∧
    (s.bindFirst h targets).calls = s.calls ∧
    ∀ owner g, (s.bindFirst h targets).isDue h owner g = s.isDue h owner g := by
  cases targets with
  | nil =>
    refine ⟨fun _ => (Option.or_none).symm, ?_, rfl, fun _ _ => rfl⟩
    exact (ite_self _).symm
  | cons c rest =>
    have hview := s.view_bind h c.service.location
    refine ⟨fun hlt => ?_, s.bindings_bind h c.service.location, congrArg View.calls hview,
      fun owner g => funext fun e => ?_⟩
    · show ((s.bind h c.service.location).view.record h).owner = _
      rw [hview, View.record_change_self _ hlt, Record.owner_bind, record_view]
      cases (s.record h).owner <;> rfl
    · have hseen : ((s.bind h c.service.location).view.record h).deliveredTo e.service.id g =
          (s.view.record h).deliveredTo e.service.id g := by
        rw [hview]
        refine View.record_change_of_eq _ (q := fun r => r.deliveredTo e.service.id g)
          (fun r => ?_) h h
        unfold Record.deliveredTo
        rw [r.watermark?_bind]
      have haccess : (s.bind h c.service.location).access = s.access := congrArg View.access hview
      unfold isDue permits
      exact congrArg₂
        (fun seen access => !seen && Visibility.permits access e.service.location owner)
        hseen haccess

/-! ### Deliveries -/

/-- A delivery, when the directory answers with the given consumers. -/
def deliverAmong (answer : List Consumer) (h : Handle) (generation : Nat) (p : Properties) :
    Session :=
  let r := s.record h
  if r.deleted then s
  else if r.isStale generation then s.skip
  else
    let targets := r.target.select s.directory answer
    let s := s.bindFirst h targets
    (targets.foldl
      (fun s' c => s'.offer h r.target (s.record h).owner generation p c) s
      ).change h fun r => r.advance generation

variable {s}

/-- What a delivery makes of its targets: an unowned record is bound to the location of the first,
and those that are due are called in turn. -/
structure InTurn (s s' : Session) (h : Handle) (g : Nat) (targets : List Consumer) : Prop where
  owner : h < s.records.length →
    (s'.record h).owner = (s.record h).owner.or (firstLocation? targets)
  binding : s'.bindings.get? (s.record h).pid =
    if (s.record h).owner = none then
      (firstLocation? targets).or (s.bindings.get? (s.record h).pid)
    else s.bindings.get? (s.record h).pid
  calls : s.Calls s' (targets.filter (s.isDue h (s'.record h).owner g))

theorem SameButMarks.owner_eq (ha : s.SameButMarks s') (i : Handle) :
    (s'.record i).owner = (s.record i).owner := by
  unfold Record.owner
  rw [(ha.content i).staticLocation, ha.bound i]

theorem deliverAmong_inTurn (p : Properties)
    (distinct : (answer.map fun c => c.service.id).Nodup) (hdel : (s.record h).deleted = false)
    (hfresh : (s.record h).isStale g = false) :
    s.InTurn (s.deliverAmong answer h g p) h g
      ((s.record h).target.select s.directory answer) := by
  unfold deliverAmong
  rw [if_neg (Bool.eq_false_iff.mp hdel), if_neg (Bool.eq_false_iff.mp hfresh)]
  dsimp only
  have hkind : ∀ c ∈ (s.record h).target.select s.directory answer,
      c.kind = (s.record h).target.kind := fun c hc => ((Target.mem_select _ _).mp hc).2.1
  have hids := (s.record h).target.select_nodup s.directory distinct
  generalize (s.record h).target.select s.directory answer = targets at hkind hids ⊢
  obtain ⟨howner, hbinding, hcalls, hdue⟩ := s.bindFirst_spec h targets
  generalize s.bindFirst h targets = s₁ at howner hbinding hcalls hdue ⊢
  have hoffers := s₁.offers_calls h (s₁.record h).owner g p hkind hids
  have hbutMarks := foldl_sameButMarks
    (fun s' c => s'.offer_sameButMarks h (s.record h).target (s₁.record h).owner g p c) targets s₁
  generalize targets.foldl _ s₁ = s₂ at hoffers hbutMarks ⊢
  have hall : s₁.SameButMarks (s₂.change h fun r => r.advance g) :=
    hbutMarks.trans (s₂.change_sameButMarks (fun r => r.sameContent_advance g) (fun _ => rfl) h)
  refine ⟨fun hlt => (hall.owner_eq h).trans (howner hlt), ?_, ?_⟩
  · rw [hall.bindings]
    exact hbinding
  · rw [hall.owner_eq h, ← hdue]
    exact (Calls.of_eq hcalls).trans hoffers

/-! ### Directories in another order -/

/-- The session over a directory that knows the given consumers. -/
def withConsumers (s : Session) (consumers : List Consumer) : Session :=
  { s with directory := { s.directory with consumers } }

section WithConsumers

variable (s : Session) (consumers : List Consumer)

theorem announce_withConsumers (c : Change) (h : Handle) :
    (s.withConsumers consumers).announce c h = (s.announce c h).withConsumers consumers := by
  by_cases hl : s.listeners.isEmpty = true
  · have hl' : (s.withConsumers consumers).listeners.isEmpty = true := hl
    rw [announce, announce, if_pos hl, if_pos hl']
  · have hl' : ¬(s.withConsumers consumers).listeners.isEmpty = true := hl
    rw [announce, announce, if_neg hl, if_neg hl']
    rfl

theorem countResult_withConsumers (f : Tally → Tally) (r : Except CallbackError Unit) :
    (s.withConsumers consumers).countResult f r =
      (s.countResult f r).withConsumers consumers := by
  cases r <;> rfl

/-- A call that is made and counted. -/
theorem call_withConsumers (t : Target) (c : Consumer) (p : Option Properties)
    (o : Option Occasion) (f : Tally → Tally) (r : Except CallbackError Unit) :
    ((s.withConsumers consumers).noteCall t c p o).countResult f r =
      ((s.noteCall t c p o).countResult f r).withConsumers consumers := by
  have hnote : (s.withConsumers consumers).noteCall t c p o =
      (s.noteCall t c p o).withConsumers consumers := by
    unfold noteCall
    cases t.call? c p <;> rfl
  rw [hnote, countResult_withConsumers]

theorem tell_withConsumers (n : Notice) (l : Service) :
    (s.withConsumers consumers).tell n l = (s.tell n l).withConsumers consumers := by
  unfold tell
  by_cases hactive : s.directory.stateOf l = .active
  · have hactive' : (s.withConsumers consumers).directory.stateOf l = .active := hactive
    rw [if_pos hactive, if_pos hactive']
    exact countResult_withConsumers { s with notifications := s.notifications ++ [⟨l, n⟩] }
      consumers _ _
  · have hactive' : ¬(s.withConsumers consumers).directory.stateOf l = .active := hactive
    rw [if_neg hactive, if_neg hactive']

end WithConsumers

/-- No task sees the order in which the directory knows its consumers. -/
theorem resemblance_withConsumers {d : Directory} {consumers : List Consumer}
    (distinct : (d.consumers.map fun c => c.service.id).Nodup)
    (hperm : consumers.Perm d.consumers) :
    Resemblance fun s t => s.directory = d ∧ t = s.withConsumers consumers where
  sees := by
    rintro s _ ⟨rfl, rfl⟩
    exact ⟨rfl, rfl, rfl, rfl, rfl, fun t => t.resolve_perm distinct hperm, fun _ => rfl⟩
  change := by
    rintro s _ ⟨hd, rfl⟩ h f
    exact ⟨hd, rfl⟩
  assignBinding := by
    rintro s _ ⟨hd, rfl⟩ pid location
    exact ⟨hd, rfl⟩
  announce := by
    rintro s _ ⟨hd, rfl⟩ c h
    exact ⟨(congrArg View.directory (s.view_announce c h)).trans hd,
      s.announce_withConsumers consumers c h⟩
  keepRoster := by
    rintro s _ ⟨hd, rfl⟩ r
    exact ⟨hd, rfl⟩
  withStorage := by
    rintro s _ ⟨hd, rfl⟩ storage
    exact ⟨hd, rfl⟩
  withNotices := by
    rintro s _ ⟨hd, rfl⟩ notices
    exact ⟨hd, rfl⟩
  skip := by
    rintro s _ ⟨hd, rfl⟩
    exact ⟨hd, rfl⟩
  deny := by
    rintro s _ ⟨hd, rfl⟩
    exact ⟨hd, rfl⟩
  revoke := by
    rintro s _ ⟨hd, rfl⟩ h t c
    exact ⟨(congrArg View.directory (s.view_revoke h t c)).trans hd,
      s.call_withConsumers consumers t c _ _ _ _⟩
  serve := by
    rintro s _ ⟨hd, rfl⟩ h t c g p
    refine ⟨(congrArg View.directory (s.view_serve h t c g p)).trans hd, ?_⟩
    exact congrArg (fun x : Session => x.change h fun r => r.note c.service.id g)
      (s.call_withConsumers consumers t c _ _ _ _)
  greet := by
    rintro s _ ⟨hd, rfl⟩ pid c o
    exact ⟨(congrArg View.directory (s.view_greet pid c o)).trans hd,
      s.call_withConsumers consumers _ c _ _ _ _⟩
  tell := by
    rintro s _ ⟨hd, rfl⟩ n l
    exact ⟨(congrArg View.directory (s.view_tell n l)).trans hd,
      s.tell_withConsumers consumers n l⟩

/-- **Targets are canonical.**  Whatever consumers a directory answers with, a configuration is
delivered to those of its kind that are live, strictly sorted by ranking and registration.  The
first of them takes the binding, and they are called in this order.  So the order of the answer
decides nothing, and neither does the order in which a directory knows its consumers. -/
theorem targets_canonical (s : Session) (h : Handle) {answer : List Consumer}
    (distinct : (answer.map fun c => c.service.id).Nodup) :
    let t := (s.record h).target
    let targets := t.select s.directory answer
    (∀ c, c ∈ targets ↔ c ∈ answer ∧ c.kind = t.kind ∧ s.directory.isLive c.service = true) ∧
    targets.Pairwise Consumer.Before ∧
    (∀ g p, (s.record h).deleted = false → (s.record h).isStale g = false →
      s.InTurn (s.deliverAmong answer h g p) h g targets) ∧
    (∀ answer', answer'.Perm answer → t.select s.directory answer' = targets ∧
      ∀ g p, s.deliverAmong answer' h g p = s.deliverAmong answer h g p) ∧
    (∀ g p, s.deliver h g p = s.deliverAmong (s.directory.find t.identity t.kind) h g p) ∧
    ∀ consumers, consumers.Perm s.directory.consumers →
      (s.directory.consumers.map fun c => c.service.id).Nodup → ∀ g p,
        (s.withConsumers consumers).deliver h g p =
          (s.deliver h g p).withConsumers consumers := by
  intro t targets
  refine ⟨fun c => t.mem_select s.directory, t.select_pairwise s.directory distinct,
    fun g p hdel hfresh => deliverAmong_inTurn p distinct hdel hfresh,
    fun answer' hperm => ?_, fun g p => rfl, fun consumers hperm hids g p => ?_⟩
  · have hsame : t.select s.directory answer' = targets :=
      t.select_perm s.directory distinct hperm
    refine ⟨hsame, fun g p => ?_⟩
    unfold deliverAmong
    dsimp only
    rw [hsame]
  · have hR := resemblance_withConsumers hids hperm
    exact (hR.deliver ⟨rfl, rfl⟩ h g p).2

/-- Consumers of two kinds register with three rankings, and one of them goes away, before a
configuration is written. -/
def gathering : List Action :=
  [.around (.addConsumer .single "there" ["pid"] 0),
    .around (.addConsumer .single "here" ["pid"] 7),
    .around (.addConsumer .factory "here" ["pid"] 9),
    .around (.addConsumer .single "here" ["pid"] 7),
    .around (.addConsumer .single "gone" ["pid"] 8), .around (.uninstall "gone"),
    .getOrCreate "pid" none, .update "pid" .empty]

/-- Read backwards, the directory leads to the same delivery: two of three targets are called. -/
theorem targets_canonical_gathering : ∃ s, start {} {} = .ok s ∧
    let s := s.run gathering
    let answer := s.directory.consumers
    let targets := (s.record 0).target.select s.directory answer
    targets.map (fun c => c.service.id) = [2, 4, 1] ∧
      (s.record 0).target.select s.directory answer.reverse = targets ∧
      s.Calls (s.deliverAmong answer.reverse 0 1 .empty) (targets.take 2) ∧
      (s.deliverAmong answer.reverse 0 1 .empty).bindings.get? "pid" = some "here" ∧
      (s.withConsumers answer.reverse).deliver 0 1 .empty =
        (s.deliver 0 1 .empty).withConsumers answer.reverse := by
  obtain ⟨s, hs⟩ : ∃ s, start {} {} = .ok s := ⟨_, rfl⟩
  refine ⟨s, hs, ?_⟩
  have hdistinct : ((s.run gathering).directory.consumers.map fun c => c.service.id).Nodup := by
    cases hs
    decide
  obtain ⟨-, -, hturn, horder, -, hsame⟩ := targets_canonical (s.run gathering) 0 hdistinct
  obtain ⟨hselect, hdeliver⟩ := horder _ (List.reverse_perm _)
  have hinTurn := hturn 1 .empty (by cases hs; decide) (by cases hs; decide)
  refine ⟨by cases hs; decide, hselect, ?_, ?_, hsame _ (List.reverse_perm _) hdistinct 1 .empty⟩
  · rw [hdeliver]
    have hcalled := hinTurn.calls
    cases hs
    exact hcalled
  · rw [hdeliver]
    have hpid : ((s.run gathering).record 0).pid = "pid" := by cases hs; decide
    have hbinding := hinTurn.binding
    rw [hpid] at hbinding
    rw [hbinding]
    cases hs
    decide

end Session
end Provisioning
