import Provisioning.Proofs.Disclosure
import Provisioning.Proofs.Fronts

/-! # Deliveries never go back

What a consumer is handed counts for a generation of the record: it is what the record held when
its counter stood there, although it may have been captured long before it is delivered.  And
what a consumer was handed once it is not handed again, nor anything older, until the record is
taken away from it.  The account of a run carries both: what has been shown of the records, what
the waiting tasks have captured of it, and for every consumer the mark behind its last delivery.
-/
namespace Provisioning

open Relation (ReflTransGen)

namespace Call

/-- The generation that a callback delivers. -/
def generation? (k : Call) : Option Nat := (k.occasion.bind Occasion.given).map Prod.snd

theorem generation?_of_occasion {k : Call} {o : Occasion} (ho : k.occasion = some o) :
    k.generation? = o.given.map Prod.snd := by
  rw [generation?, ho, Option.bind_some]

/-- Whether a callback was made to a service on behalf of a record. -/
def Concerns (k : Call) (h : Handle) (service : Nat) : Prop :=
  k.consumer.service.id = service ∧ ∃ o, k.occasion = some o ∧ o.record = h

/-- Whether a callback takes a record away: it hands over nothing, and the record is deleted or
not to be seen by the consumer.  A first word that there are no properties yet does not. -/
def TakesAway (access : Option AccessCheck) (k : Call) : Prop :=
  k.message.properties? = none ∧ ∃ o, k.occasion = some o ∧ o.given = none ∧
    (o.standing.deleted = true ∨
      Visibility.permits access k.consumer.service.location o.standing.owner = false)

/-- From one callback to a later one of the same record and service the generation does not
decrease, unless the record was taken away in between. -/
def NeverBack (access : Option AccessCheck) (calls : List Call) : Prop :=
  ∀ before k middle k' after, calls = before ++ k :: (middle ++ k' :: after) →
    ∀ h service g g', k.Concerns h service → k'.Concerns h service →
      k.generation? = some g → k'.generation? = some g' →
        (∀ m ∈ middle, m.Concerns h service → ¬m.TakesAway access) → g ≤ g'

end Call

/-- Where a list that grew at its end is split: at the new item, or before it. -/
theorem split_concat {α : Type} {l before after : List α} {x y : α}
    (h : l ++ [x] = before ++ y :: after) :
    (after = [] ∧ y = x ∧ before = l) ∨
      ∃ after', after = after' ++ [x] ∧ l = before ++ y :: after' := by
  rcases List.eq_nil_or_concat after with rfl | ⟨after', z, rfl⟩
  · obtain ⟨rfl, hx⟩ := List.append_inj' h rfl
    cases hx
    exact Or.inl ⟨rfl, rfl, rfl⟩
  · rw [List.concat_eq_append, ← List.cons_append, ← List.append_assoc] at h
    obtain ⟨rfl, hx⟩ := List.append_inj' h rfl
    cases hx
    exact Or.inr ⟨after', List.concat_eq_append, rfl⟩

/-- The account of a run at one moment: what has been shown of the records, which services went
away, whom hooks have announced, and the callbacks that were made. -/
structure Account (shown : Handle → Nat → Option Properties → Prop) (gone : Nat → Prop)
    (announced : Consumer → Prop) (access : Option AccessCheck) (made : List Call) (v : View) :
    Prop where
  access_eq : v.access = access
  /-- What was shown is a generation of a record. -/
  reached : ∀ h g p, shown h g p → h < v.records.length ∧ g ≤ (v.record h).counter
  current : ∀ h < v.records.length, shown h (v.record h).counter (v.record h).properties
  captured : ∀ t ∈ v.waiting, (∀ m ∈ t.snapshots, shown m.record m.generation m.properties) ∧
    ∀ c, t.consumer? = some c → announced c
  given : ∀ k ∈ made, ∀ o p g, k.occasion = some o → o.given = some (p, g) →
    shown o.record g (some p)
  /-- Behind the last delivery there is a mark, unless the service went away. -/
  marked : ∀ before k after, made = before ++ k :: after → ∀ h service g,
    k.Concerns h service → k.generation? = some g →
      (∀ m ∈ after, m.Concerns h service → ¬m.TakesAway access) →
        gone service ∨ ∃ w, (v.record h).watermark? service = some w ∧ g ≤ w
  ordered : Call.NeverBack access made

namespace Account

variable {shown : Handle → Nat → Option Properties → Prop} {gone : Nat → Prop}
variable {announced : Consumer → Prop} {access : Option AccessCheck} {made : List Call}
variable {v v' : View}

/-- What is marked was shown. -/
theorem shown_of_generation (ha : Account shown gone announced access made v) {k : Call}
    (hk : k ∈ made) {h : Handle} {service g : Nat} (hc : k.Concerns h service)
    (hg : k.generation? = some g) : ∃ p, shown h g (some p) := by
  obtain ⟨-, o, ho, rfl⟩ := hc
  rw [Call.generation?_of_occasion ho] at hg
  obtain ⟨⟨p, g'⟩, hgiven, rfl⟩ := Option.map_eq_some_iff.mp hg
  exact ⟨p, ha.given k hk o p g' ho hgiven⟩

/-- A change of the records that keeps content and marks. -/
theorem of_marks (ha : Account shown gone announced access made v) (hac : v'.access = v.access)
    (hw : v'.waiting = v.waiting) (hl : v'.records.length = v.records.length)
    (hcontent : ∀ h, (v.record h).SameContent (v'.record h))
    (hmarks : ∀ h service w, (v.record h).watermark? service = some w →
      ∃ w', (v'.record h).watermark? service = some w' ∧ w ≤ w') :
    Account shown gone announced access made v' where
  access_eq := hac.trans ha.access_eq
  reached := by
    intro h g p hs
    rw [hl, (hcontent h).counter]
    exact ha.reached h g p hs
  current := by
    intro h hlt
    rw [(hcontent h).counter, (hcontent h).properties]
    exact ha.current h (hl ▸ hlt)
  captured := by
    rw [hw]
    exact ha.captured
  given := ha.given
  marked := by
    intro before k after he h service g hc hg hno
    refine (ha.marked before k after he h service g hc hg hno).imp_right ?_
    rintro ⟨w, hw, hle⟩
    obtain ⟨w', hw', hle'⟩ := hmarks h service w hw
    exact ⟨w', hw', Nat.le_trans hle hle'⟩
  ordered := ha.ordered

/-- A callback that delivers nothing. -/
theorem concat_none (ha : Account shown gone announced access made v) {k' : Call}
    (hk : k'.generation? = none) :
    Account shown gone announced access (made ++ [k']) v := by
  have hgiven : ∀ o p g, k'.occasion = some o → o.given ≠ some (p, g) := by
    intro o p g ho hg
    rw [Call.generation?_of_occasion ho, hg] at hk
    cases hk
  refine ⟨ha.access_eq, ha.reached, ha.current, ha.captured, ?_, ?_, ?_⟩
  · intro k hm o p g ho hg
    rcases List.mem_append.mp hm with hm | hm
    · exact ha.given k hm o p g ho hg
    · rw [List.mem_singleton.mp hm] at ho
      exact absurd hg (hgiven o p g ho)
  · intro before k after he h service g hc hg hno
    rcases split_concat he with ⟨-, rfl, -⟩ | ⟨after', rfl, he'⟩
    · rw [hk] at hg
      cases hg
    · exact ha.marked before k after' he' h service g hc hg
        fun m hm => hno m (List.mem_append_left _ hm)
  · intro before k middle k'' after he h service g g' hc hc' hg hg' hno
    rw [← List.cons_append, ← List.append_assoc] at he
    rcases split_concat he with ⟨-, rfl, -⟩ | ⟨after', rfl, he'⟩
    · rw [hk] at hg'
      cases hg'
    · rw [List.append_assoc, List.cons_append] at he'
      exact ha.ordered before k middle k'' after' he' h service g g' hc hc' hg hg' hno

/-- Noting a generation lowers no mark. -/
theorem note (ha : Account shown gone announced access made v) (h : Handle) (service g : Nat) :
    Account shown gone announced access made (v.change h fun r => r.note service g) := by
  have hst : v.Steady (v.change h fun r => r.note service g) :=
    View.steady_change (fun r => r.sameContent_note _ _) (fun _ _ ho => ho) h
  refine ha.of_marks rfl rfl (v.length_change h _) hst.content fun i id w hw => ?_
  rw [View.record_change]
  split
  · next hi =>
    rw [hi.1] at hw
    exact Record.watermark?_note_mono _ hw
  · exact ⟨w, hw, Nat.le_refl _⟩

/-- A callback that delivers a generation which the consumer has not passed, and that is marked
at once. -/
theorem concat_some (ha : Account shown gone announced access made v) {h : Handle} {g : Nat}
    {p : Properties} {c : Consumer} {k' : Call} {o : Occasion} (hc' : k'.consumer = c)
    (ho : k'.occasion = some o) (hr : o.record = h) (hgiven : o.given = some (p, g))
    (hshown : shown h g (some p)) (hlive : ¬gone c.service.id)
    (hnew : ∀ w g', (v.record h).watermark? c.service.id = some w → g' ≤ w →
      g' ≤ (v.record h).counter → g' ≤ g) :
    Account shown gone announced access (made ++ [k'])
      (v.change h fun r => r.note c.service.id g) := by
  have hlt : h < v.records.length := (ha.reached h g _ hshown).1
  have hgen : k'.generation? = some g := by
    rw [Call.generation?_of_occasion ho, hgiven]
    rfl
  have hmine : ∀ h' service, k'.Concerns h' service → h' = h ∧ service = c.service.id := by
    rintro h' service ⟨hs, o', ho', rfl⟩
    rw [ho] at ho'
    cases ho'
    exact ⟨hr, by rw [← hs, hc']⟩
  have hmark := ha.note h c.service.id g
  refine ⟨ha.access_eq, hmark.reached, hmark.current, ha.captured, ?_, ?_, ?_⟩
  · intro k hm o' p' g' ho' hg'
    rcases List.mem_append.mp hm with hm | hm
    · exact ha.given k hm o' p' g' ho' hg'
    · rw [List.mem_singleton.mp hm, ho] at ho'
      cases ho'
      rw [hgiven] at hg'
      cases hg'
      rw [hr]
      exact hshown
  · intro before k after he h' service g' hc hg hno
    rcases split_concat he with ⟨-, rfl, -⟩ | ⟨after', rfl, he'⟩
    · -- the new callback is marked at once
      obtain ⟨rfl, rfl⟩ := hmine h' service hc
      rw [hgen] at hg
      cases hg
      rw [View.record_change_self _ hlt]
      exact Or.inr (Record.le_watermark?_note _ _ _)
    · exact hmark.marked before k after' he' h' service g' hc hg
        fun m hm => hno m (List.mem_append_left _ hm)
  · intro before k middle k'' after he h' service g₁ g₂ hc hc₂ hg₁ hg₂ hno
    rw [← List.cons_append, ← List.append_assoc] at he
    rcases split_concat he with ⟨-, rfl, he'⟩ | ⟨after', rfl, he'⟩
    · -- the new callback against an earlier one, behind which there is a mark
      obtain ⟨rfl, rfl⟩ := hmine h' service hc₂
      rw [hgen] at hg₂
      cases hg₂
      have hk : k ∈ made := by
        rw [← he']
        simp
      obtain ⟨p', hs'⟩ := ha.shown_of_generation hk hc hg₁
      rcases ha.marked before k middle he'.symm _ _ _ hc hg₁ hno with hgone | ⟨w, hw, hle⟩
      · exact absurd hgone hlive
      · exact hnew w g₁ hw hle (ha.reached _ _ _ hs').2
    · rw [List.append_assoc, List.cons_append] at he'
      exact ha.ordered before k middle k'' after' he' h' service g₁ g₂ hc hc₂ hg₁ hg₂ hno

/-- Once a record was taken away from a consumer, the record may forget the consumer. -/
theorem forget {front : List Call} {k' : Call} {h : Handle} {service : Nat}
    (ha : Account shown gone announced access (front ++ [k']) v) (hc' : k'.Concerns h service)
    (htaken : k'.TakesAway access) :
    Account shown gone announced access (front ++ [k'])
      (v.change h fun r => r.forget service) := by
  have hcontent := (View.steady_change (v := v) (fun r => r.sameContent_forget service)
    (fun _ _ ho => ho) h).content
  refine ⟨ha.access_eq, ?_, ?_, ha.captured, ha.given, ?_, ha.ordered⟩
  · intro i g p hs
    rw [View.length_change, (hcontent i).counter]
    exact ha.reached i g p hs
  · intro i hlt
    rw [(hcontent i).counter, (hcontent i).properties]
    exact ha.current i (v.length_change h _ ▸ hlt)
  · intro before k after he i service' g hc hg hno
    by_cases hsame : i = h ∧ service' = service
    · -- no delivery is open any more: the record was taken away after the last one
      obtain ⟨rfl, rfl⟩ := hsame
      exfalso
      rcases split_concat he with ⟨-, rfl, -⟩ | ⟨after', rfl, -⟩
      · obtain ⟨-, o, ho, hgiven, -⟩ := htaken
        rw [Call.generation?_of_occasion ho, hgiven] at hg
        cases hg
      · exact hno k' (List.mem_append_right _ List.mem_cons_self) hc' htaken
    · refine (ha.marked before k after he i service' g hc hg hno).imp_right ?_
      rintro ⟨w, hw, hle⟩
      refine ⟨w, ?_, hle⟩
      rw [View.record_change]
      split
      · next hi =>
        rw [Record.watermark?_forget, if_neg fun hs => hsame ⟨hi.1, hs⟩, ← hi.1]
        exact hw
      · exact hw

/-- More may have been shown, as long as it stands there now, and more may be known. -/
theorem widen {shown' : Handle → Nat → Option Properties → Prop} {gone' : Nat → Prop}
    {announced' : Consumer → Prop} (ha : Account shown gone announced access made v)
    (hs : ∀ h g p, shown h g p → shown' h g p)
    (hr : ∀ h g p, shown' h g p → shown h g p ∨
      (h < v.records.length ∧ (v.record h).counter = g))
    (hg : ∀ id, gone id → gone' id) (han : ∀ c, announced c → announced' c) :
    Account shown' gone' announced' access made v where
  access_eq := ha.access_eq
  reached := by
    intro h g p hshown
    rcases hr h g p hshown with hshown | ⟨hlt, rfl⟩
    · exact ha.reached h g p hshown
    · exact ⟨hlt, Nat.le_refl _⟩
  current := fun h hlt => hs _ _ _ (ha.current h hlt)
  captured := fun t ht => ⟨fun m hm => hs _ _ _ ((ha.captured t ht).1 m hm),
    fun c hc => han c ((ha.captured t ht).2 c hc)⟩
  given := fun k hk o p g ho hgiven => hs _ _ _ (ha.given k hk o p g ho hgiven)
  marked := fun before k after he h service g hc hgen hno =>
    (ha.marked before k after he h service g hc hgen hno).imp_left (hg service)
  ordered := ha.ordered

/-- What is shown at the front of a run. -/
theorem front (ha : Account shown gone announced access made v) {greeted : Option Consumer}
    {forgotten : Option Nat} (hf : View.Front greeted forgotten v v')
    {shown' : Handle → Nat → Option Properties → Prop} {gone' : Nat → Prop}
    {announced' : Consumer → Prop} (hs : ∀ h g p, shown' h g p ↔ shown h g p ∨
      (h < v'.records.length ∧ (v'.record h).counter = g ∧ (v'.record h).properties = p))
    (hg : ∀ id, gone id ∨ forgotten = some id → gone' id)
    (han : ∀ c, announced c ∨ greeted = some c → announced' c) :
    Account shown' gone' announced' access made v' where
  access_eq := hf.access.trans ha.access_eq
  reached := by
    intro h g p hshown
    rcases (hs h g p).mp hshown with hold | ⟨hlt, rfl, -⟩
    · obtain ⟨hlt, hle⟩ := ha.reached h g p hold
      exact ⟨Nat.lt_of_lt_of_le hlt hf.ages.length, Nat.le_trans hle (hf.ages.counter h hlt)⟩
    · exact ⟨hlt, Nat.le_refl _⟩
  current := fun h hlt => (hs _ _ _).mpr (Or.inr ⟨hlt, rfl, rfl⟩)
  captured := by
    intro t ht
    rcases hf.tasks t ht with ht | ⟨hsnap, hc⟩
    · exact ⟨fun m hm => (hs _ _ _).mpr (Or.inl ((ha.captured t ht).1 m hm)),
        fun c hc => han c (Or.inl ((ha.captured t ht).2 c hc))⟩
    · refine ⟨fun m hm => ?_, fun c hcons => han c (Or.inr (hc c hcons))⟩
      obtain ⟨hlt, he⟩ := hsnap m hm
      refine (hs _ _ _).mpr (Or.inr ⟨hlt, ?_, ?_⟩)
      · exact (congrArg Snapshot.generation he).symm
      · exact (congrArg Snapshot.properties he).symm
  given := fun k hk o p g ho hgiven => (hs _ _ _).mpr (Or.inl (ha.given k hk o p g ho hgiven))
  marked := by
    intro before k after he h service g hc hgen hno
    have hk : k ∈ made := by
      rw [he]
      simp
    obtain ⟨p, hshown⟩ := ha.shown_of_generation hk hc hgen
    by_cases hforgot : forgotten = some service
    · exact Or.inl (hg service (Or.inr hforgot))
    · rcases ha.marked before k after he h service g hc hgen hno with hgone | hmark
      · exact Or.inl (hg service (Or.inl hgone))
      · right
        rw [hf.marks h (ha.reached h g _ hshown).1 service hforgot]
        exact hmark
  ordered := ha.ordered

end Account

/-! ### Work -/

theorem View.lt_of_properties {v : View} {h : Handle} {p : Properties}
    (hp : (v.record h).properties = some p) : h < v.records.length := by
  rcases Nat.lt_or_ge h v.records.length with hlt | hge
  · exact hlt
  · unfold View.record at hp
    rw [List.getElem?_eq_none hge] at hp
    cases hp

section Work

variable {shown : Handle → Nat → Option Properties → Prop} {gone : Nat → Prop}
variable {announced : Consumer → Prop} {access : Option AccessCheck} {made : List Call}
variable {v v' : View}

/-- The account after a consumer was told something that delivers nothing. -/
theorem Account.hear_none (ha : Account shown gone announced access made v) {t : Target}
    {c : Consumer} {o : Option Occasion} (ho : ∀ o', o = some o' → o'.given = none) :
    ∃ more, (v.hear t c none o).calls = v.calls ++ more ∧
      Account shown gone announced access (made ++ more) (v.hear t c none o) ∧
      (c.kind = t.kind → ∃ k, more = [k] ∧ k.consumer = c ∧ k.occasion = o ∧
        k.message.properties? = none) := by
  have hsame : Account shown gone announced access made (v.hear t c none o) :=
    ha.of_marks rfl rfl rfl (fun _ => .refl _) fun _ _ w hw => ⟨w, hw, Nat.le_refl _⟩
  refine ⟨_, rfl, ?_⟩
  cases hcall : t.call? c none with
  | none =>
    refine ⟨?_, fun hk => ?_⟩
    · rw [Option.map_none, Option.toList_none, List.append_nil]
      exact hsame
    · unfold Target.call? at hcall
      rw [if_pos (beq_iff_eq.mpr hk)] at hcall
      cases hcall
  | some m =>
    refine ⟨hsame.concat_none ?_, fun _ => ⟨_, rfl, rfl, rfl, t.properties?_call hcall⟩⟩
    cases o with
    | none => rfl
    | some o' =>
      rw [Call.generation?_of_occasion rfl, ho o' rfl]
      rfl

/-- The account after a consumer was handed a generation that it has not passed. -/
theorem Account.hear_some (ha : Account shown gone announced access made v) {t : Target}
    {c : Consumer} {h : Handle} {g : Nat} {p : Properties} {o : Occasion} (hr : o.record = h)
    (hgiven : o.given = some (p, g)) (hshown : shown h g (some p)) (hlive : ¬gone c.service.id)
    (hnew : ∀ w g', (v.record h).watermark? c.service.id = some w → g' ≤ w →
      g' ≤ (v.record h).counter → g' ≤ g) (delivered : Option Properties) :
    ∃ more, (v.hear t c delivered (some o)).calls = v.calls ++ more ∧
      Account shown gone announced access (made ++ more)
        ((v.hear t c delivered (some o)).change h fun r => r.note c.service.id g) := by
  have hsame : ∀ made', Account shown gone announced access made' (v.change h fun r =>
      r.note c.service.id g) → Account shown gone announced access made'
        ((v.hear t c delivered (some o)).change h fun r => r.note c.service.id g) :=
    fun made' ha' => ha'.of_marks rfl rfl rfl (fun _ => .refl _) fun _ _ w hw =>
      ⟨w, hw, Nat.le_refl _⟩
  refine ⟨_, rfl, hsame _ ?_⟩
  cases t.call? c delivered with
  | none =>
    rw [Option.map_none, Option.toList_none, List.append_nil]
    exact ha.note h c.service.id g
  | some m => exact ha.concat_some rfl rfl hr hgiven hshown hlive hnew

/-- **Each effect keeps the account.** -/
theorem TaskEffect.account {t : Task} (hd : TaskEffect t v v')
    (ha : Account shown gone announced access made v)
    (hcap : (∀ m ∈ t.snapshots, shown m.record m.generation m.properties) ∧
      ∀ c, t.consumer? = some c → announced c)
    (halive : ∀ c, c ∈ v.directory.consumers ∨ announced c → gone c.service.id →
      v.directory.isLive c.service = false) :
    ∃ more, v'.calls = v.calls ++ more ∧
      Account shown gone announced access (made ++ more) v' := by
  have hnothing : v'.calls = v.calls → Account shown gone announced access made v' →
      ∃ more, v'.calls = v.calls ++ more ∧
        Account shown gone announced access (made ++ more) v' := by
    intro hc ha'
    refine ⟨[], ?_, ?_⟩
    · rw [hc, List.append_nil]
    · rw [List.append_nil]
      exact ha'
  have hst := hd.steady
  have hkeep : (∀ h service, (v'.record h).watermark? service =
      (v.record h).watermark? service) → Account shown gone announced access made v' :=
    fun hm => ha.of_marks hst.access hst.waiting hst.length hst.content
      fun h service w hw => ⟨w, (hm h service).trans hw, Nat.le_refl _⟩
  cases hd with
  | @bind _ _ h c =>
    refine hnothing rfl (hkeep fun i service => ?_)
    exact v.record_change_of_eq (q := fun r => r.watermark? service)
      (fun r => r.watermark?_bind _ _) h i
  | @advance _ h g =>
    refine hnothing rfl (hkeep fun i service => ?_)
    exact v.record_change_of_eq (q := fun r => r.watermark? service)
      (f := fun r => r.advance g) (fun _ => rfl) h i
  | strike _ filing =>
    obtain ⟨rosters, rfl⟩ := filing.exists_rosters
    exact hnothing rfl (hkeep fun _ _ => rfl)
  | @serve _ _ h c g p sees brings =>
    -- whoever is served is there, so that its marks are not dropped
    have hlive : ¬gone c.service.id := by
      intro hg
      have hdead := halive c (brings.known.imp_right (hcap.2 c)) hg
      rw [sees.live] at hdead
      cases hdead
    have hshown : shown h g (some p) := by
      rcases brings.snapshot_or with ⟨hm, -⟩ | ⟨rfl, hp⟩
      · exact hcap.1 _ hm
      · rw [← hp]
        exact ha.current h (View.lt_of_properties hp)
    -- a change of the owner hands over the newest generation, marked or not
    have hnew : ∀ w g', (v.record h).watermark? c.service.id = some w → g' ≤ w →
        g' ≤ (v.record h).counter → g' ≤ g := by
      intro w g' hw hle hle'
      rcases brings.snapshot_or with ⟨-, hunseen⟩ | ⟨rfl, -⟩
      · have hlt := (v.record h).deliveredTo_eq_false_iff.mp hunseen w hw
        omega
      · exact hle'
    exact ha.hear_some rfl rfl hshown hlive hnew _
  | @revoke _ h c former undeleted target saw unseen =>
    obtain ⟨more, hm, hheard, hone⟩ := ha.hear_none (t := (v.record h).target) (c := c)
      (o := some ⟨h, v.record h, none⟩) (by intro o' ho; cases ho; rfl)
    obtain ⟨k, rfl, hc, hocc, hmsg⟩ := hone (Target.mem_resolve.mp target).2.2.1
    refine ⟨[k], hm, hheard.forget ⟨by rw [hc], _, hocc, rfl⟩ ⟨hmsg, _, hocc, rfl, Or.inr ?_⟩⟩
    rw [hc, ← ha.access_eq]
    exact unseen
  | @retract _ h c =>
    obtain ⟨more, hm, hheard, -⟩ := ha.hear_none (t := (v.record h).target) (c := c)
      (o := some ⟨h, v.record h, none⟩) (by intro o' ho; cases ho; rfl)
    exact ⟨more, hm, hheard⟩
  | @greetEmpty _ h c pid =>
    obtain ⟨more, hm, hheard, -⟩ := ha.hear_none (t := .single pid) (c := c)
      (o := some ⟨h, v.record h, none⟩) (by intro o' ho; cases ho; rfl)
    exact ⟨more, hm, hheard⟩
  | @greet _ c pid =>
    obtain ⟨more, hm, hheard, -⟩ := ha.hear_none (t := .single pid) (c := c) (o := none)
      (by intro o' ho; cases ho)
    exact ⟨more, hm, hheard⟩

theorem TaskEffects.account {t : Task} (hd : TaskEffects t v v')
    (ha : Account shown gone announced access made v)
    (hcap : (∀ m ∈ t.snapshots, shown m.record m.generation m.properties) ∧
      ∀ c, t.consumer? = some c → announced c)
    (halive : ∀ c, c ∈ v.directory.consumers ∨ announced c → gone c.service.id →
      v.directory.isLive c.service = false) :
    ∃ more, v'.calls = v.calls ++ more ∧
      Account shown gone announced access (made ++ more) v' := by
  induction hd with
  | refl => exact ⟨[], by simp, by simpa using ha⟩
  | tail hfirst hlast ih =>
    obtain ⟨more, hm, ha₁⟩ := ih
    have hdir := (TaskEffects.steady hfirst).directory
    obtain ⟨more', hm', ha₂⟩ := hlast.account ha₁ hcap (by rw [hdir]; exact halive)
    refine ⟨more ++ more', ?_, ?_⟩
    · rw [hm', hm, List.append_assoc]
    · rw [← List.append_assoc]
      exact ha₂

/-- **Work keeps the account.** -/
theorem View.works_account (hw : ReflTransGen View.Work v v')
    (ha : Account shown gone announced access made v)
    (halive : ∀ c, c ∈ v.directory.consumers ∨ announced c → gone c.service.id →
      v.directory.isLive c.service = false) :
    ∃ more, v'.calls = v.calls ++ more ∧
      Account shown gone announced access (made ++ more) v' := by
  induction hw with
  | refl => exact ⟨[], by simp, by simpa using ha⟩
  | @tail v₁ v₂ hfirst hlast ih =>
    obtain ⟨more, hm, ha₁⟩ := ih
    have hdir := (View.works_disclosesChecked hfirst).2.directory
    cases hlast with
    | @work t rest waiting effects =>
      have hhead := ha₁.captured t (by rw [waiting]; exact List.mem_cons_self)
      have hpopped : Account shown gone announced access (made ++ more)
          { v₁ with waiting := rest } :=
        ⟨ha₁.access_eq, ha₁.reached, ha₁.current,
          fun t' ht => ha₁.captured t' (by rw [waiting]; exact List.mem_cons_of_mem _ ht),
          ha₁.given, ha₁.marked, ha₁.ordered⟩
      rw [← hdir] at halive
      obtain ⟨more', hm', ha₂⟩ := effects.account hpopped hhead halive
      refine ⟨more ++ more', ?_, ?_⟩
      · rw [hm']
        show v₁.calls ++ more' = _
        rw [hm, List.append_assoc]
      · rw [← List.append_assoc]
        exact ha₂

end Work

namespace Session

/-- A run has shown a generation of a record: at some point between two steps the counter of the
record stood there, and the record held the given properties. -/
def Showed (s : Session) (actions : List Action) (h : Handle) (g : Nat)
    (p : Option Properties) : Prop :=
  ∃ before, before <+: actions ∧ h < (s.run before).records.length ∧
    ((s.run before).record h).counter = g ∧ ((s.run before).record h).properties = p

/-- A service that the manager is told has gone away is not live any more, whatever follows.
This concerns the consumers that are registered or were announced. -/
def WithdrawnStayGone (s : Session) (actions : List Action) : Prop :=
  ∀ before, before <+: actions → ∀ c : Consumer, .consumerWithdrawn c.service.id ∈ before →
    c ∈ (s.run before).directory.consumers ∨ .consumerRegistered c ∈ before →
      (s.run before).directory.isLive c.service = false

theorem showed_concat (s : Session) (before : List Action) (a : Action) (h : Handle) (g : Nat)
    (p : Option Properties) :
    s.Showed (before ++ [a]) h g p ↔ s.Showed before h g p ∨
      (h < (s.run (before ++ [a])).records.length ∧
        ((s.run (before ++ [a])).record h).counter = g ∧
        ((s.run (before ++ [a])).record h).properties = p) := by
  constructor
  · rintro ⟨front, hp, hs⟩
    rcases List.prefix_concat_iff.mp hp with rfl | hp
    · exact Or.inr hs
    · exact Or.inl ⟨front, hp, hs⟩
  · rintro (⟨front, hp, hs⟩ | hs)
    · exact ⟨front, hp.trans (List.prefix_append _ _), hs⟩
    · exact ⟨before ++ [a], List.prefix_rfl, hs⟩

/-- Nothing was called yet, and nothing waits. -/
theorem account_start {s : Session} (hq : s.view.waiting = []) {gone : Nat → Prop}
    {announced : Consumer → Prop} :
    Account (s.Showed []) gone announced s.access [] s.view := by
  refine ⟨rfl, ?_, ?_, ?_, ?_, ?_, ?_⟩
  · rintro h g p ⟨front, hp, hlt, rfl, -⟩
    rw [List.prefix_nil.mp hp] at hlt ⊢
    exact ⟨hlt, Nat.le_refl _⟩
  · exact fun h hlt => ⟨[], List.prefix_rfl, hlt, rfl, rfl⟩
  · intro t ht
    rw [hq] at ht
    exact absurd ht List.not_mem_nil
  · exact fun k hk => absurd hk List.not_mem_nil
  · intro before k after he
    exact absurd he.symm (by simp)
  · intro before k middle k' after he
    exact absurd he.symm (by simp)

/-- **Every run has an account.** -/
theorem run_account {s : Session} (hf : s.view.Filed) (hq : s.view.waiting = [])
    {actions : List Action} (hsub : ∀ t, .submit t ∉ actions)
    (hgone : s.WithdrawnStayGone actions) :
    ∃ made, (s.run actions).calls = s.calls ++ made ∧
      Account (s.Showed actions) (fun id => .consumerWithdrawn id ∈ actions)
        (fun c => .consumerRegistered c ∈ actions) s.access made (s.run actions).view := by
  induction actions using List.reverseRecOn with
  | nil => exact ⟨[], (List.append_nil _).symm, account_start hq⟩
  | append_singleton before a ih =>
    have hpre : before <+: before ++ [a] := List.prefix_append _ _
    obtain ⟨made, hm, ha⟩ := ih (fun t ht => hsub t (hpre.subset ht))
      fun front hp => hgone front (hp.trans hpre)
    have hf' := run_filed hf before
    have hrun := s.run_concat before a
    have hsubset : ∀ {x}, x ∈ before → x ∈ before ++ [a] := fun h => List.mem_append_left _ h
    have hlast : a ∈ before ++ [a] := List.mem_append_right _ List.mem_cons_self
    rcases (step_deal hf' a).front_or hf' with
      hfront | ⟨t, rfl⟩ | ⟨-, accepting, w, hw, cached, rosters, hv⟩
    · -- nobody is called, and the account goes on with what the action has announced
      refine ⟨made, ?_, ?_⟩
      · rw [← hm, hrun]
        exact hfront.calls
      · rw [hrun]
        refine ha.front hfront (fun h g p => ?_) ?_ ?_
        · rw [showed_concat, hrun]
          rfl
        · rintro id (hid | hid)
          · exact hsubset hid
          · cases a with
            | consumerWithdrawn service => cases hid; exact hlast
            | _ => cases hid
        · rintro c (hc | hc)
          · exact hsubset hc
          · cases a with
            | consumerRegistered c' => cases hc; exact hlast
            | _ => cases hc
    · exact absurd hlast (hsub t)
    · -- work is done, of one task or of all that wait
      have hstart : Account (s.Showed before) (fun id => .consumerWithdrawn id ∈ before)
          (fun c => .consumerRegistered c ∈ before) s.access made
            { (s.run before).view with accepting } :=
        ⟨ha.access_eq, ha.reached, ha.current, ha.captured, ha.given, ha.marked, ha.ordered⟩
      obtain ⟨more, hm', haw⟩ := View.works_account hw hstart
        fun c hc hid => hgone before hpre c hid hc
      have hend : Account (s.Showed before) (fun id => .consumerWithdrawn id ∈ before)
          (fun c => .consumerRegistered c ∈ before) s.access (made ++ more)
            (s.run (before ++ [a])).view := by
        rw [hrun, hv]
        exact ⟨haw.access_eq, haw.reached, haw.current, haw.captured, haw.given, haw.marked,
          haw.ordered⟩
      refine ⟨made ++ more, ?_, hend.widen ?_ ?_ (fun _ h => hsubset h) (fun _ h => hsubset h)⟩
      · have hcalls : (s.run (before ++ [a])).view.calls = (s.run before).view.calls ++ more := by
          rw [hrun, hv]
          exact hm'
        rw [← List.append_assoc, ← hm]
        exact hcalls
      · exact fun h g p hs => (showed_concat s before a h g p).mpr (Or.inl hs)
      · intro h g p hs
        rcases (showed_concat s before a h g p).mp hs with hs | ⟨hlt, hg, -⟩
        · exact Or.inl hs
        · exact Or.inr ⟨hlt, hg⟩

/-! ### Generations of a run -/

theorem step_ages {s : Session} (hf : s.view.Filed) {a : Action} (ha : ∀ t, a ≠ .submit t) :
    s.view.Ages (s.step a).2.view := by
  rcases (step_deal hf a).front_or hf with
    hfront | ⟨t, rfl⟩ | ⟨-, accepting, w, hw, cached, rosters, hv⟩
  · exact hfront.ages
  · exact absurd rfl (ha t)
  · have hkept := (View.works_disclosesChecked hw).2
    rw [hv]
    refine ⟨Nat.le_of_eq hkept.length.symm, fun h _ => ?_,
      fun h _ _ => (hkept.content h).properties⟩
    exact Nat.le_of_eq (hkept.content h).counter.symm

theorem run_ages {s : Session} (hf : s.view.Filed) {before after : List Action}
    (hsub : ∀ t, .submit t ∉ after) : (s.run before).view.Ages (s.run (before ++ after)).view := by
  induction after using List.reverseRecOn with
  | nil =>
    rw [List.append_nil]
    exact .refl _
  | append_singleton after a ih =>
    have hold := ih fun t ht => hsub t (List.mem_append_left _ ht)
    rw [← List.append_assoc, run_concat]
    refine hold.trans (step_ages (run_filed hf _) fun t ht => hsub t ?_)
    exact List.mem_append_right _ (List.mem_singleton.mpr ht.symm)

/-- A generation of a record stands for one content. -/
theorem Showed.unique {s : Session} (hf : s.view.Filed) {actions : List Action}
    (hsub : ∀ t, .submit t ∉ actions) {h : Handle} {g : Nat} {p q : Option Properties}
    (hp : s.Showed actions h g p) (hq : s.Showed actions h g q) : p = q := by
  have hone : ∀ {front back : List Action}, front <+: back → back <+: actions →
      h < (s.run front).records.length → ((s.run front).record h).counter = g →
        ((s.run back).record h).counter = g →
          ((s.run back).record h).properties = ((s.run front).record h).properties := by
    rintro front back ⟨more, rfl⟩ hb hlt hg hg'
    have hages : (s.run front).view.Ages (s.run (front ++ more)).view :=
      run_ages hf fun t ht => hsub t (hb.subset (List.mem_append_right _ ht))
    exact hages.properties h hlt (hg'.trans hg.symm)
  obtain ⟨front, hf₁, hlt₁, hg₁, rfl⟩ := hp
  obtain ⟨back, hf₂, hlt₂, hg₂, rfl⟩ := hq
  rcases List.prefix_or_prefix_of_prefix hf₁ hf₂ with hle | hle
  · exact (hone hle hf₂ hlt₁ hg₁ hg₂).symm
  · exact hone hle hf₁ hlt₂ hg₂ hg₁

/-- **Deliveries are never stale.**  Whatever a callback of a run discloses, the plugins were
given exactly what the record held at the generation that the delivery counts for; and as long
as the record is not taken away from a consumer, the generations it is handed never decrease. -/
theorem deliveries_never_stale {w : World} {settings : Settings} {s : Session}
    (hs : start w settings = .ok s) {actions : List Action} (hsub : ∀ t, .submit t ∉ actions)
    (hgone : s.WithdrawnStayGone actions) :
    (∀ k ∈ (s.run actions).calls.drop s.calls.length, k.Discloses →
      ∃ before a after o p g identity, actions = before ++ a :: after ∧
        k ∈ (s.run (before ++ [a])).calls.drop (s.run before).calls.length ∧
        k.occasion = some o ∧ o.given = some (p, g) ∧
        k.message.properties? =
          some ((s.run before).plugins.run identity k.consumer.service p) ∧
        s.Showed actions o.record g (some p) ∧
        ∀ q, s.Showed actions o.record g q → q = some p) ∧
    Call.NeverBack s.access ((s.run actions).calls.drop s.calls.length) := by
  have hf := start_filed hs
  have hq : s.view.waiting = [] := by rw [start_view hs]
  obtain ⟨made, hm, ha⟩ := run_account hf hq hsub hgone
  rw [hm, List.drop_left]
  refine ⟨fun k hk hd => ?_, ha.ordered⟩
  have hk' : k ∈ (s.run actions).calls.drop s.calls.length := by
    rw [hm, List.drop_left]
    exact hk
  obtain ⟨before, a, after, o, he, hent⟩ := run_entitled hf actions k hk' hd
  obtain ⟨p, g, identity, hgiven, hp⟩ := hent.handed
  have hshown := ha.given k hk o p g hent.occasion hgiven
  exact ⟨before, a, after, o, p, g, identity, he, hent.made, hent.occasion, hgiven, hp, hshown,
    fun q hq => hq.unique hf hsub hshown⟩

/-- A consumer is handed two generations in order, and goes away for good. -/
theorem deliveries_never_stale_two_updates :
    ∃ s actions, start {} {} = .ok s ∧ (∀ t, .submit t ∉ actions) ∧
      s.WithdrawnStayGone actions ∧ (s.run actions).calls.length = 2 ∧
      (∀ k ∈ (s.run actions).calls.drop s.calls.length, k.Discloses →
        ∃ before a after o p g identity, actions = before ++ a :: after ∧
          k ∈ (s.run (before ++ [a])).calls.drop (s.run before).calls.length ∧
          k.occasion = some o ∧ o.given = some (p, g) ∧
          k.message.properties? =
            some ((s.run before).plugins.run identity k.consumer.service p) ∧
          s.Showed actions o.record g (some p) ∧
          ∀ q, s.Showed actions o.record g q → q = some p) ∧
      Call.NeverBack s.access ((s.run actions).calls.drop s.calls.length) := by
  obtain ⟨s, hs⟩ : ∃ s, start {} {} = .ok s := ⟨_, rfl⟩
  obtain ⟨actions, hactions⟩ : ∃ actions : List Action, actions =
      [.around (.addConsumer .single "here" ["pid"] 0), .getOrCreate "pid" none,
        .update "pid" .empty, .update "pid" .empty, .runUpdate, .runUpdate,
        .around (.withdraw 1)] ++ [.consumerWithdrawn 1] := ⟨_, rfl⟩
  have hsub : ∀ t, .submit t ∉ actions := by simp [hactions]
  have hdead : (s.run actions).directory.consumers.all
      (fun c => !(s.run actions).directory.isLive c.service) = true := by
    cases hs
    subst hactions
    decide
  have hlen : (s.run actions).calls.length = 2 := by
    cases hs
    subst hactions
    decide
  have hgone : s.WithdrawnStayGone actions := by
    intro before hp c hc hknown
    rw [hactions] at hp
    rcases List.prefix_concat_iff.mp hp with he | hp
    · rw [he, ← hactions] at hknown ⊢
      rcases hknown with hknown | hknown
      · simpa using List.all_eq_true.mp hdead c hknown
      · simp [hactions] at hknown
    · have hin := hp.subset hc
      simp at hin
  obtain ⟨hgiven, hordered⟩ := deliveries_never_stale hs hsub hgone
  exact ⟨s, actions, hs, hsub, hgone, hlen, hgiven, hordered⟩

end Session
end Provisioning
