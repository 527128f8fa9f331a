import Provisioning.Proofs.Fulfilment

/-! # Who holds a record

A consumer holds a record as long as the last callback that it received on behalf of the record
carried properties.  Only work makes callbacks; what happens between two pieces of work,
an interlude, changes who may see a record, and queues the task that brings the callbacks up to
that.  So what is to be shown of holders falls into two parts: what an interlude keeps, and what
running the task that waits longest keeps (`step_keeps`).
-/
namespace Provisioning

open Relation (ReflTransGen)

theorem Directory.Continues.trans {d d' d'' : Directory} (h : d.Continues d')
    (h' : d'.Continues d'') : d.Continues d'' :=
  ⟨fun c hc => h'.consumers c (h.consumers c hc), Nat.le_trans h.registrations h'.registrations,
    fun c hc hl => h.live c hc (h'.live c (h.consumers c hc) hl)⟩

namespace View

variable {v v' v'' : View} {h : Handle} {c : Consumer} {greeted : Option Consumer}

/-- The last callback to a consumer on behalf of a record carried properties. -/
def Holds (v : View) (h : Handle) (c : Consumer) : Prop :=
  ∃ k, (v.words h c).getLast? = some k ∧ k.message.properties? ≠ none

/-- A consumer that holds a record may see it. -/
def Fair (v : View) (h : Handle) (c : Consumer) : Prop :=
  v.Holds h c → ∃ o, (v.record h).owner = some o ∧ v.permits c.service.location (some o) = true

theorem holds_of_words (hw : v'.words h c = v.words h c) : v'.Holds h c ↔ v.Holds h c := by
  unfold Holds
  rw [hw]

theorem words_of_calls (hc : v'.calls = v.calls) : v'.words h c = v.words h c := by
  unfold words
  rw [hc]

/-- A last word without properties takes the record away. -/
theorem not_holds_concat {before : List Call} {k : Call} (hw : v.words h c = before ++ [k])
    (hk : k.message.properties? = none) : ¬v.Holds h c := by
  rintro ⟨k', hlast, hp⟩
  rw [hw, List.getLast?_concat] at hlast
  cases hlast
  exact hp hk

/-! ### What is on record -/

/-- Callbacks were made to registered consumers on behalf of records that are there, and the
waiting tasks speak of such. -/
structure Recorded (v : View) : Prop where
  called : ∀ k ∈ v.calls, k.consumer ∈ v.directory.consumers ∧
    ∀ o, k.occasion = some o → o.record < v.records.length
  tasks : ∀ t ∈ v.waiting, t.Refers v ∧ ∀ c, t.consumer? = some c → c ∈ v.directory.consumers

theorem Recorded.of_eq (hv : v.Recorded) (hc : v'.calls = v.calls)
    (hd : v'.directory = v.directory) (hr : v'.records = v.records)
    (hw : ∀ t ∈ v'.waiting, t ∈ v.waiting) : v'.Recorded := by
  refine ⟨?_, fun t ht => ?_⟩
  · rw [hc, hd, hr]
    exact hv.called
  · obtain ⟨href, hcons⟩ := hv.tasks t (hw t ht)
    have hrec : ∀ i, v'.record i = v.record i := by
      intro i
      unfold record
      rw [hr]
    rw [hd]
    exact ⟨href.mono (Nat.le_of_eq (by rw [hr])) fun i hi => hrec i ▸ hi, hcons⟩

/-- The task that waits longest is taken from the line. -/
theorem Recorded.pop (hv : v.Recorded) {t : Task} {rest : List Task} (hw : v.waiting = t :: rest) :
    ({ v with waiting := rest } : View).Recorded ∧ t.Refers { v with waiting := rest } ∧
      ∀ c, t.consumer? = some c → c ∈ ({ v with waiting := rest } : View).directory.consumers := by
  have hsub : ∀ t' ∈ rest, t' ∈ v.waiting := fun t' ht => hw ▸ List.mem_cons_of_mem t ht
  obtain ⟨href, hc⟩ := hv.tasks t (hw ▸ List.mem_cons_self)
  exact ⟨hv.of_eq rfl rfl rfl hsub, ⟨href.captured, href.relocated, href.retracted⟩, hc⟩

theorem Recorded.not_holds (hv : v.Recorded)
    (hno : c ∉ v.directory.consumers ∨ v.records.length ≤ h) : ¬v.Holds h c := by
  rintro ⟨k, hlast, -⟩
  obtain ⟨hk, habout⟩ := List.mem_filter.mp (List.mem_of_getLast? hlast)
  obtain ⟨rfl, o, ho, rfl⟩ := Call.isAbout_iff.mp habout
  obtain ⟨hc, hr⟩ := hv.called k hk
  rcases hno with hno | hge
  · exact hno hc
  · exact absurd (hr o ho) (Nat.not_lt.mpr hge)

/-! ### Interludes -/

/-- What happens between two pieces of work: nobody is called or marked, and whenever a record
passes from one owner to another, the change waits to be told. -/
structure Interlude (greeted : Option Consumer) (v v' : View) : Prop where
  calls : v'.calls = v.calls
  access : v'.access = v.access
  accepting : v'.accepting = v.accepting
  directory : v.directory.Continues v'.directory
  length : v.records.length ≤ v'.records.length
  target : ∀ h < v.records.length, (v'.record h).target = (v.record h).target
  deleted : ∀ h, (v.record h).deleted = true → (v'.record h).deleted = true
  known : ∀ h, v'.Known h → v.Known h ∨ v.records.length ≤ h
  owner : ∀ h < v.records.length, (v'.record h).owner = (v.record h).owner ∨
    (v.record h).owner = none ∨
      (v.accepting = true → .relocate h (v.record h).owner ∈ v'.waiting)
  marks : ∀ h id w, (v'.record h).watermark? id = some w → (v.record h).watermark? id = some w
  waiting : ∀ t ∈ v.waiting, t ∈ v'.waiting
  tasks : ∀ t ∈ v'.waiting, t ∈ v.waiting ∨
    (t.Refers v' ∧ t.Addressed v' ∧ (∀ c, t.consumer? = some c → greeted = some c) ∧
      ∀ h owner, t = .retract h owner → (v.record h).deleted = false)

namespace Interlude

theorem refl (v : View) : Interlude greeted v v :=
  ⟨rfl, rfl, rfl, .refl _, Nat.le_refl _, fun _ _ => rfl, fun _ hd => hd, fun _ hk => Or.inl hk,
    fun _ _ => Or.inl rfl, fun _ _ _ hw => hw, fun _ ht => ht, fun _ ht => Or.inl ht⟩

theorem trans (h : Interlude greeted v v') (h' : Interlude greeted v' v'') :
    Interlude greeted v v'' where
  calls := h'.calls.trans h.calls
  access := h'.access.trans h.access
  accepting := h'.accepting.trans h.accepting
  directory := h.directory.trans h'.directory
  length := Nat.le_trans h.length h'.length
  target := fun i hi =>
    (h'.target i (Nat.lt_of_lt_of_le hi h.length)).trans (h.target i hi)
  deleted := fun i hd => h'.deleted i (h.deleted i hd)
  known := by
    intro i hk
    rcases h'.known i hk with hk | hge
    · exact h.known i hk
    · exact Or.inr (Nat.le_trans h.length hge)
  owner := by
    intro i hi
    rcases h.owner i hi with hsame | hnone | htold
    · -- what becomes of the owner is decided by the later part
      rw [← hsame, ← h.accepting]
      exact h'.owner i (Nat.lt_of_lt_of_le hi h.length)
    · exact Or.inr (Or.inl hnone)
    · exact Or.inr (Or.inr fun ha => h'.waiting _ (htold ha))
  marks := fun i id w hw => h.marks i id w (h'.marks i id w hw)
  waiting := fun t ht => h'.waiting t (h.waiting t ht)
  tasks := by
    intro t ht
    rcases h'.tasks t ht with ht | ⟨href, haddr, hc, hdel⟩
    · rcases h.tasks t ht with ht | ⟨href, haddr, hc, hdel⟩
      · exact Or.inl ht
      · exact Or.inr ⟨href.mono h'.length h'.deleted, haddr.mono href h'.target, hc, hdel⟩
    · refine Or.inr ⟨href, haddr, hc, fun i owner he => ?_⟩
      cases hd : (v.record i).deleted with
      | false => rfl
      | true =>
        have hd' := h.deleted i hd
        rw [hdel i owner he] at hd'
        cases hd'

/-- One record is changed, and stays the record of its pid. -/
theorem of_change {f : Record → Record} (hpid : ∀ r, (f r).pid = r.pid)
    (htarget : ∀ r, (f r).target = r.target)
    (hdel : ∀ r, r.deleted = true → (f r).deleted = true)
    (hmarks : ∀ r id w, (f r).watermark? id = some w → r.watermark? id = some w)
    (howner : (f (v.record h)).owner = (v.record h).owner ∨ (v.record h).owner = none ∨
      (v.accepting = true → .relocate h (v.record h).owner ∈ v.waiting)) :
    Interlude greeted v (v.change h f) where
  calls := rfl
  access := rfl
  accepting := rfl
  directory := .refl _
  length := Nat.le_of_eq (v.length_change h f).symm
  target := fun i _ => v.record_change_of_eq htarget h i
  deleted := by
    intro i hd
    rw [record_change]
    split
    · next hi =>
      rw [hi.1] at hd
      exact hdel _ hd
    · exact hd
  known := by
    intro i hk
    unfold Known at hk ⊢
    rw [v.record_change_of_eq hpid] at hk
    exact Or.inl hk
  owner := by
    intro i _
    rw [record_change]
    split
    · next hi => rw [hi.1]; exact howner
    · exact Or.inl rfl
  marks := by
    intro i id w hw
    rw [record_change] at hw
    split at hw
    · next hi =>
      rw [hi.1]
      exact hmarks _ id w hw
    · exact hw
  waiting := fun _ ht => ht
  tasks := fun _ ht => Or.inl ht

/-- The world around goes on. -/
theorem of_around {directory : Directory} {plugins : Pipeline}
    (hd : v.directory.Continues directory) :
    Interlude greeted v { v with directory, plugins } :=
  ⟨rfl, rfl, rfl, hd, Nat.le_refl _, fun _ _ => rfl, fun _ hd => hd, fun _ hk => Or.inl hk,
    fun _ _ => Or.inl rfl, fun _ _ _ hw => hw, fun _ ht => ht, fun _ ht => Or.inl ht⟩

/-- A task is queued that retracts nothing. -/
theorem of_enqueue {t : Task} (ht : t.Refers v) (haddr : t.Addressed v)
    (hc : ∀ c, t.consumer? = some c → greeted = some c)
    (hno : ∀ h owner, t ≠ .retract h owner) : Interlude greeted v (v.enqueue t) := by
  rw [enqueue_eq]
  refine ⟨rfl, rfl, rfl, .refl _, Nat.le_refl _, fun _ _ => rfl, fun _ hd => hd,
    fun _ hk => Or.inl hk, fun _ _ => Or.inl rfl, fun _ _ _ hw => hw, fun t' ht' => ?_,
    fun t' ht' => ?_⟩
  · dsimp only
    split
    · exact List.mem_append_left _ ht'
    · exact ht'
  · dsimp only at ht'
    split at ht'
    · rcases List.mem_append.mp ht' with ht' | ht'
      · exact Or.inl ht'
      · rw [List.mem_singleton.mp ht']
        exact Or.inr ⟨⟨ht.captured, ht.relocated, ht.retracted⟩, haddr.of_records rfl, hc,
          fun i owner he => absurd he (hno i owner)⟩
    · exact Or.inl ht'

theorem permits (hi : Interlude greeted v v') (location : String) (owner : Option String) :
    v'.permits location owner = v.permits location owner :=
  permits_of_access hi.access location owner

theorem holds (hi : Interlude greeted v v') : v'.Holds h c ↔ v.Holds h c :=
  holds_of_words (words_of_calls hi.calls)

/-- A target was one before, unless its registration is new. -/
theorem targets (hi : Interlude greeted v v') (hlt : h < v.records.length)
    (hc : c ∈ v'.targets h) (hold : c ∈ v.directory.consumers) : c ∈ v.targets h := by
  unfold View.targets at hc ⊢
  rw [hi.target h hlt] at hc
  obtain ⟨-, hlive, hkind, hlists⟩ := Target.mem_resolve.mp hc
  exact Target.mem_resolve.mpr ⟨hold, hi.directory.live c hold hlive, hkind, hlists⟩

theorem recorded (hi : Interlude greeted v v') (hv : v.Recorded)
    (hg : ∀ c, greeted = some c → c ∈ v'.directory.consumers) : v'.Recorded where
  called := by
    rw [hi.calls]
    intro k hk
    obtain ⟨hc, hr⟩ := hv.called k hk
    exact ⟨hi.directory.consumers _ hc, fun o ho => Nat.lt_of_lt_of_le (hr o ho) hi.length⟩
  tasks := by
    intro t ht
    rcases hi.tasks t ht with ht | ⟨href, -, hc, -⟩
    · obtain ⟨href, hc⟩ := hv.tasks t ht
      exact ⟨href.mono hi.length hi.deleted, fun c he => hi.directory.consumers c (hc c he)⟩
    · exact ⟨href, fun c he => hg c (hc c he)⟩

end Interlude

theorem Extends.interlude {admits : Record → Prop} (he : Extends admits v v') :
    Interlude greeted v v' where
  calls := he.calls
  access := he.access
  accepting := he.accepting
  directory := he.directory ▸ .refl _
  length := he.length_le
  target := fun i hi => by rw [he.record_eq hi]
  deleted := fun i hd => by rw [he.record_eq (lt_of_deleted hd), hd]
  known := by
    intro i hk
    rcases he.fresh _ i hk with hk | hge
    · rcases Nat.lt_or_ge i v.records.length with hlt | hge
      · rw [he.record_eq hlt] at hk
        exact Or.inl hk
      · exact Or.inr hge
    · exact Or.inr hge
  owner := fun i hi => Or.inl (by rw [he.record_eq hi])
  marks := by
    intro i id w hw
    rcases Nat.lt_or_ge i v.records.length with hlt | hge
    · rwa [he.record_eq hlt] at hw
    · -- a record that was added is marked for nobody
      rw [he.watermark?_new hge] at hw
      cases hw
  waiting := fun t ht => he.waiting ▸ ht
  tasks := fun t ht => Or.inl (he.waiting ▸ ht)

/-- A change of one record, and a task that tells of it. -/
theorem change_enqueue (h : Handle) (f : Record → Record) (t : Task) :
    (v.change h f).enqueue t = (v.enqueue t).change h f := by
  unfold enqueue
  split
  · next ha =>
    have ha' : v.accepting = true := ha
    rw [if_pos ha']
    rfl
  · next ha =>
    have ha' : ¬v.accepting = true := ha
    rw [if_neg ha']

/-- Whoever loses the ownership of a record, the change waits to be told. -/
theorem interlude_pass {f : Record → Record} {former : Option String}
    (hlt : h < v.records.length) (hpid : ∀ r, (f r).pid = r.pid)
    (htarget : ∀ r, (f r).target = r.target) (hdel : ∀ r, (f r).deleted = r.deleted)
    (hmarks : ∀ r, (f r).watermarks = r.watermarks) (hformer : (v.record h).owner = former) :
    Interlude greeted v ((v.change h f).enqueue (.relocate h former)) := by
  rw [change_enqueue]
  have hq : Interlude greeted v (v.enqueue (.relocate h former)) := by
    refine .of_enqueue ⟨fun m hm => absurd hm List.not_mem_nil, ?_, ?_⟩ trivial ?_ ?_
    · rintro _ _ ⟨⟩
      exact hlt
    · rintro _ _ ⟨⟩
    · rintro _ ⟨⟩
    · rintro _ _ ⟨⟩
  refine hq.trans (.of_change hpid htarget (fun r hd => (hdel r).trans hd) (fun r id w hw => ?_)
    (Or.inr (Or.inr ?_)))
  · unfold Record.watermark? at hw ⊢
    rwa [hmarks] at hw
  intro ha
  have ha' : v.accepting = true := hq.accepting ▸ ha
  rw [record_enqueue, hformer, enqueue_of_accepting _ ha']
  exact List.mem_append_right _ List.mem_cons_self

theorem Amendment.interlude (ha : Amendment v v') (hv : v.Filed) : Interlude greeted v v' := by
  cases ha with
  | @commit h p cached =>
    have hchange : Interlude greeted v (v.change h fun r => r.commit p) :=
      .of_change (fun _ => rfl) (fun _ => rfl) (fun _ hd => hd) (fun _ _ _ hw => hw) (Or.inl rfl)
    refine hchange.trans (.of_enqueue ⟨fun m hm => ?_, ?_, ?_⟩ trivial ?_ ?_)
    · rw [List.mem_singleton.mp hm, length_change]
      exact (hv.held _ h cached).1
    · rintro _ _ ⟨⟩
    · rintro _ _ ⟨⟩
    · rintro _ ⟨⟩
    · rintro _ _ ⟨⟩
  | @discard h cached =>
    obtain ⟨hlt, -, hdel⟩ := hv.held _ h cached
    have hchange : Interlude greeted v (v.change h fun r => { r with deleted := true }) :=
      .of_change (fun _ => rfl) (fun _ => rfl) (fun _ _ => rfl) (fun _ _ _ hw => hw) (Or.inl rfl)
    rw [enqueue_eq]
    refine { hchange with
      known := fun i hk => hchange.known i ?_
      owner := fun i _ => ?_
      waiting := fun t ht => ?_
      tasks := fun t ht => ?_ }
    · -- what is still known was known before
      have hk' : (v.cached.erase (v.record h).pid).get?
          ((v.change h fun r => { r with deleted := true }).record i).pid = some i := hk
      rw [Table.get?_erase] at hk'
      split at hk'
      · cases hk'
      · exact hk'
    · exact Or.inl (v.record_change_of_eq (q := Record.owner)
        (f := fun r => { r with deleted := true }) (fun _ => rfl) h i)
    · dsimp only
      split
      · exact List.mem_append_left _ ht
      · exact ht
    · dsimp only at ht
      split at ht
      · rcases List.mem_append.mp ht with ht | ht
        · exact Or.inl ht
        · rw [List.mem_singleton.mp ht]
          refine Or.inr ⟨⟨fun m hm => absurd hm List.not_mem_nil, ?_, ?_⟩, trivial, ?_, ?_⟩
          · rintro _ _ ⟨⟩
          · rintro _ _ ⟨⟩
            exact congrArg Record.deleted
              (v.record_change_self hlt fun r => { r with deleted := true })
          · rintro _ ⟨⟩
          · rintro _ _ ⟨⟩
            exact hdel
      · exact Or.inl ht
  | @settle h location cached kept =>
    refine .of_change (fun _ => rfl) (fun _ => rfl) (fun _ hd => hd) (fun _ _ _ hw => hw) ?_
    rw [Record.owner_relocate]
    exact kept.imp Eq.symm Or.inl
  | @resettle h location cached owned =>
    exact interlude_pass (hv.held _ h cached).1 (fun _ => rfl) (fun _ => rfl) (fun _ => rfl)
      (fun _ => rfl) rfl

theorem Greeting.interlude {identity : String} (hg : Greeting c identity v v') (hv : v.Filed) :
    Interlude (some c) v v' := by
  cases hg with
  | single kind =>
    refine .of_enqueue ⟨fun m hm => ?_, ?_, ?_⟩ kind (fun _ hc => hc) ?_
    · obtain ⟨h, hh, rfl⟩ := Option.map_eq_some_iff.mp (Option.mem_toList.mp hm)
      exact (hv.held _ h hh).1
    · rintro _ _ ⟨⟩
    · rintro _ _ ⟨⟩
    · rintro _ _ ⟨⟩
  | members kind sound =>
    refine .of_enqueue ⟨fun m hm => ?_, ?_, ?_⟩ ⟨kind, fun m hm => ?_⟩ (fun _ hc => hc) ?_
    · obtain ⟨pid, h, hh, rfl, -⟩ := sound m hm
      exact (hv.held pid h hh).1
    · rintro _ _ ⟨⟩
    · rintro _ _ ⟨⟩
    · obtain ⟨pid, h, hh, rfl, hf⟩ := sound m hm
      show (v.record h).target.kind = .factory
      unfold Record.target
      rw [hf]
      rfl
    · rintro _ _ ⟨⟩
  | unlisted => exact .refl v

theorem Greetings.interlude {admits : Record → Prop} {identities : List String}
    (hg : Greetings admits c identities v v') (hv : v.Filed) : Interlude (some c) v v' := by
  induction hg with
  | done => exact .refl _
  | next hl hgreet _ ih =>
    have hf := hl.filed hv
    exact (hl.extends.interlude.trans (hgreet.interlude hf)).trans (ih (hgreet.filed hf))

theorem Release.interlude {location : String} (hr : Release location v v') :
    Interlude greeted v v' := by
  cases hr with
  | release bound =>
    refine interlude_pass (lt_of_isBoundTo bound) (fun r => by rw [r.release_eq])
      (fun r => ?_) (fun r => by rw [r.release_eq]) (fun r => by rw [r.release_eq])
      (Record.owner_of_isBoundTo _ bound)
    unfold Record.target
    rw [r.release_eq]

theorem Forgets.interlude {service : Nat} (ho : Forgets service v v') :
    Interlude greeted v v' := by
  cases ho with
  | forget =>
    refine .of_change (fun _ => rfl) (fun _ => rfl) (fun _ hd => hd) (fun r id w hw => ?_)
      (Or.inl rfl)
    rw [r.watermark?_forget] at hw
    split at hw
    · cases hw
    · exact hw

theorem interlude_of_steps {r : View → View → Prop}
    (hstep : ∀ v v', r v v' → Interlude greeted v v') (hr : ReflTransGen r v v') :
    Interlude greeted v v' := by
  induction hr with
  | refl => exact .refl v
  | tail _ hlast ih => exact ih.trans (hstep _ _ hlast)

/-- Whatever is not work is an interlude. -/
theorem Deal.interlude {admits : Record → Prop} {a : Action} (hd : Deal admits a v v')
    (hv : v.Filed) (hq : a.isQuiet = true)
    (hdir : ∀ action, a = .around action → v.directory.Continues v'.directory) :
    Interlude a.greeted v v' := by
  cases hd with
  | nothing => exact .refl v
  | call _ lookups amended =>
    rcases amended with rfl | amended
    · exact lookups.extends.interlude
    · exact lookups.extends.interlude.trans (amended.interlude (lookups.filed hv))
  | register greetings => exact greetings.interlude hv
  | withdraw forgotten => exact interlude_of_steps (fun _ _ h => h.interlude) forgotten
  | uninstall released => exact interlude_of_steps (fun _ _ h => h.interlude) released
  | submit | work | stop => cases hq
  | around => exact .of_around (hdir _ rfl)
  | extend => exact .of_around (.refl _)

/-- Work is accepted until the end. -/
theorem Deal.accepting {admits : Record → Prop} {a : Action}
    (hd : Deal admits a v v') (hv : v.Filed) (hend : a ≠ .shutdown) :
    v'.accepting = v.accepting := by
  cases hd with
  | nothing | around | extend => rfl
  | call _ lookups amended =>
    rcases amended with rfl | amended
    · exact lookups.extends.accepting
    · have hinter : Interlude none _ v' := amended.interlude (lookups.filed hv)
      exact hinter.accepting.trans lookups.extends.accepting
  | register greetings => exact (greetings.interlude hv).accepting
  | withdraw forgotten => exact (alike_of_steps (fun _ _ h => h.alike) forgotten).accepting
  | uninstall released => exact (alike_of_steps (fun _ _ h => h.alike) released).accepting
  | submit => exact (alike_enqueue v _).accepting
  | work hw => exact hw.alike.accepting
  | stop => exact absurd rfl hend

/-! ### Effects of a task -/

/-- What a callback adds to the words of a consumer: nothing, or the callback. -/
theorem words_hear_or (target : Target) (c' : Consumer) (p : Option Properties)
    (o : Occasion) :
    (v.hear target c' p (some o)).words h c = v.words h c ∨ (c' = c ∧ o.record = h ∧
      ∃ k, (v.hear target c' p (some o)).words h c = v.words h c ++ [k] ∧
        k.message.properties? = p) := by
  by_cases he : c' = c ∧ o.record = h
  · obtain ⟨rfl, rfl⟩ := he
    unfold words hear
    rw [List.filter_append]
    cases hcall : target.call? c' p with
    | none => exact Or.inl (List.append_nil _)
    | some m =>
      refine Or.inr ⟨rfl, rfl, ⟨c', m, some o⟩, congrArg _ (List.filter_eq_self.mpr ?_),
        target.properties?_call hcall⟩
      intro k hk
      rw [List.mem_singleton.mp hk]
      exact Call.isAbout_iff.mpr ⟨rfl, o, rfl, rfl⟩
  · refine Or.inl (words_hear_other fun hc o' ho hr => he ⟨hc, ?_⟩)
    cases ho
    exact hr

end View

variable {t : Task} {v v' : View} {h : Handle} {c : Consumer}

/-- What an effect says to a consumer on behalf of a record: nothing, or something to a consumer
that may see it, or that it is gone.  Of a deleted record it says so to those that saw it. -/
theorem TaskEffect.words_or (hd : TaskEffect t v v') (h : Handle) (c : Consumer) :
    v'.words h c = v.words h c ∨ ∃ k, v'.words h c = v.words h c ++ [k] ∧
      (v.MaySee h c ∨ k.message.properties? = none ∧ ((v.record h).deleted = false ∨
        ∃ owner, t = .retract h owner ∧ v.permits c.service.location owner = true)) := by
  cases hd with
  | bind | advance => exact Or.inl rfl
  | strike _ filing =>
    obtain ⟨rosters, rfl⟩ := filing.exists_rosters
    exact Or.inl rfl
  | @serve _ _ h' c' g p sees brings =>
    rcases v.words_hear_or (h := h) (c := c) (t.address v h') c'
      (some (v.plugins.run (t.address v h').identity c'.service p))
      ⟨h', v.record h', some (p, g)⟩ with hsame | ⟨rfl, rfl, k, hk, -⟩
    · exact Or.inl hsame
    · exact Or.inr ⟨k, hk, Or.inl sees⟩
  | @revoke _ h' c' former undeleted target saw unseen =>
    rcases v.words_hear_or (h := h) (c := c) (v.record h').target c' none
      ⟨h', v.record h', none⟩ with hsame | ⟨rfl, rfl, k, hk, hp⟩
    · exact Or.inl hsame
    · exact Or.inr ⟨k, hk, Or.inr ⟨hp, Or.inl undeleted⟩⟩
  | @retract _ h' c' owner target saw =>
    rcases v.words_hear_or (h := h) (c := c) (v.record h').target c' none
      ⟨h', v.record h', none⟩ with hsame | ⟨rfl, rfl, k, hk, hp⟩
    · exact Or.inl hsame
    · exact Or.inr ⟨k, hk, Or.inr ⟨hp, Or.inr ⟨owner, rfl, saw⟩⟩⟩
  | greet => exact Or.inl (View.words_hear_other fun _ o ho => by cases ho)
  | @greetEmpty _ h' c' pid g sees =>
    rcases v.words_hear_or (h := h) (c := c) (.single pid) c' none
      ⟨h', v.record h', none⟩ with hsame | ⟨rfl, rfl, k, hk, -⟩
    · exact Or.inl hsame
    · exact Or.inr ⟨k, hk, Or.inl sees⟩

/-- Whoever may see what it holds may do so after an effect. -/
theorem TaskEffect.fair (hd : TaskEffect t v v') (hown : ∀ l, v.permits l (some l) = true)
    (hlt : h < v.records.length) (hf : v.Fair h c) : v'.Fair h c := by
  have hst := hd.steady
  have hkeep : (∃ o, (v.record h).owner = some o ∧
      v.permits c.service.location (some o) = true) →
      ∃ o, (v'.record h).owner = some o ∧ v'.permits c.service.location (some o) = true := by
    rintro ⟨o, ho, hp⟩
    exact ⟨o, hst.owned h o ho, (hst.permits _ _).trans hp⟩
  intro hholds
  rcases hd.words_or h c with hsame | ⟨k, hk, hsees | ⟨hp, -⟩⟩
  · exact hkeep (hf ((View.holds_of_words hsame).mp hholds))
  · -- whoever is told something may see the record
    obtain ⟨o, ho⟩ := Option.ne_none_iff_exists'.mp (hsees.owned hlt)
    refine hkeep ⟨o, ho, ?_⟩
    exact ho ▸ hsees.permits hown
  · exact absurd hholds (View.not_holds_concat hk hp)

theorem TaskEffects.fair (hd : TaskEffects t v v') (hown : ∀ l, v.permits l (some l) = true)
    (hlt : h < v.records.length) (hf : v.Fair h c) : v'.Fair h c := by
  induction hd with
  | refl => exact hf
  | tail hfirst hlast ih =>
    have hst := TaskEffects.steady hfirst
    exact hlast.fair (fun l => (hst.permits _ _).trans (hown l))
      (Nat.lt_of_lt_of_eq hlt hst.length.symm) ih

/-- Of a deleted record only its own retraction says anything, to those that saw it. -/
theorem TaskEffects.words_deleted (hd : TaskEffects t v v') (hdel : (v.record h).deleted = true)
    (hno : ∀ owner, t = .retract h owner → v.permits c.service.location owner = false) :
    v'.words h c = v.words h c := by
  induction hd with
  | refl => rfl
  | @tail v₁ v₂ hfirst hlast ih =>
    have hst := TaskEffects.steady hfirst
    have hdel' := (hst.content h).deleted.trans hdel
    rcases hlast.words_or h c with hsame | ⟨k, -, hsees | ⟨-, hundel | ⟨owner, he, hp⟩⟩⟩
    · exact hsame.trans ih
    · rw [hsees.undeleted] at hdel'
      cases hdel'
    · rw [hundel] at hdel'
      cases hdel'
    · rw [hst.permits, hno owner he] at hp
      cases hp

theorem TaskEffects.recorded (hd : TaskEffects t v v') (hv : v.Recorded)
    (ht : t.Refers v ∧ ∀ c, t.consumer? = some c → c ∈ v.directory.consumers) :
    v'.Recorded := by
  have hst := hd.steady
  have hrefers : ∀ {u u' : View} {t' : Task}, u.Steady u' → (t'.Refers u ∧
      ∀ c, t'.consumer? = some c → c ∈ u.directory.consumers) →
        t'.Refers u' ∧ ∀ c, t'.consumer? = some c → c ∈ u'.directory.consumers := by
    rintro u u' t' hs ⟨href, hc⟩
    exact ⟨href.mono (Nat.le_of_eq hs.length.symm) fun i hi => (hs.content i).deleted.trans hi,
      fun c he => hs.directory ▸ hc c he⟩
  refine ⟨?_, fun t' ht' => hrefers hst (hv.tasks t' (hst.waiting ▸ ht'))⟩
  induction hd with
  | refl => exact hv.called
  | tail hfirst hlast ih =>
    have hst₁ := TaskEffects.steady hfirst
    have hst₂ := hlast.steady
    obtain ⟨href, hc⟩ := hrefers hst₁ ht
    intro k hk
    rw [hst₂.directory, hst₂.length]
    exact (hlast.called href hc k hk).elim (ih hst₁ k) id

namespace Session

variable {s : Session}

/-! ### Steps and runs -/

/-- A consumer is registered before the manager is told of it, and no change of the directory
brings a consumer back to life. -/
structure Proper (s : Session) (a : Action) : Prop where
  announced : ∀ c, a = .consumerRegistered c → c ∈ s.directory.consumers
  continues : ∀ action, a = .around action →
    s.directory.Continues (s.toWorld.step action).directory

/-- All of the given actions are proper, one after the other. -/
def KeepsDirectory (s : Session) : List Action → Prop
  | [] => True
  | a :: rest => s.Proper a ∧ (s.step a).2.KeepsDirectory rest

theorem Proper.of_inward {a : Action} (hg : a.greeted = none)
    (ha : ∀ action, a ≠ .around action) : s.Proper a := by
  refine ⟨fun c he => ?_, fun action he => absurd he (ha action)⟩
  subst he
  cases hg

/-- What the update worker does with the task that waits longest. -/
theorem runUpdate_cases (s : Session) : s.runUpdate = s ∨ ∃ t rest, ∃ s₁ : Session,
    s.view.waiting = t :: rest ∧ s₁.view = { s.view with waiting := rest } ∧
      s.runUpdate = s₁.perform t := by
  cases hw : s.view.waiting with
  | nil => exact Or.inl (s.runUpdate_idle hw)
  | cons t rest => exact Or.inr ⟨t, rest, _, rfl, s.view_pop hw, s.runUpdate_busy hw⟩

/-- What interludes keep, and the worker, and the end of a session. -/
structure Keeps (K : View → Prop) : Prop where
  interlude : ∀ {v v' : View} {greeted : Option Consumer}, v.Filed → v.Interlude greeted v' →
    (∀ c, greeted = some c → c ∈ v'.directory.consumers) → K v → K v'
  work : ∀ {s : Session}, s.view.Filed → K s.view → K s.runUpdate.view
  close : ∀ {v : View}, K v → K { v with accepting := false }
  clear : ∀ {v : View}, K v → K { v with cached := .empty, rosters := .empty }

variable {K : View → Prop}

theorem runUpdate_filed (hf : s.view.Filed) : s.runUpdate.view.Filed := by
  rcases s.runUpdate_view with ⟨-, he⟩ | hw
  · rw [he]
    exact hf
  · exact hw.filed hf

theorem Keeps.runUpdates (hK : Keeps K) (n : Nat) (hf : s.view.Filed) (h : K s.view) :
    K (runUpdates n s).view := by
  induction n generalizing s with
  | zero => exact h
  | succ n ih => exact ih (runUpdate_filed hf) (hK.work hf h)

theorem Keeps.shutdown (hK : Keeps K) (hf : s.view.Filed) (h : K s.view) :
    K s.shutdown.view := by
  rcases s.shutdown_view with he | he
  · rw [he]
    exact h
  · have hclosed : ({ s with updates := s.updates.close } : Session).view.Filed :=
      ⟨hf.held, hf.titled, hf.distinct⟩
    rw [he]
    exact hK.clear (hK.runUpdates _ hclosed (hK.close h))

theorem Keeps.step (hK : Keeps K) (hf : s.view.Filed) {a : Action} (hp : s.Proper a)
    (hsub : ∀ t, a ≠ .submit t) (h : K s.view) : K (s.step a).2.view := by
  by_cases hq : a.isQuiet = true
  · have hi := (step_deal hf a).interlude hf hq fun action he => by
      subst he
      exact hp.continues action rfl
    refine hK.interlude hf hi (fun c hc => hi.directory.consumers c ?_) h
    cases a with
    | consumerRegistered c' =>
      cases hc
      exact hp.announced c rfl
    | _ => cases hc
  · cases a with
    | submit t => exact absurd rfl (hsub t)
    | runUpdate => exact hK.work hf h
    | shutdown => exact hK.shutdown hf h
    | _ => exact absurd rfl hq

/-- **What each part of a session keeps, every run keeps.** -/
theorem Keeps.run (hK : Keeps K) {actions : List Action} (hf : s.view.Filed)
    (hdir : s.KeepsDirectory actions) (hsub : ∀ t, .submit t ∉ actions) (h : K s.view) :
    K (s.run actions).view := by
  induction actions generalizing s with
  | nil => exact h
  | cons a rest ih =>
    obtain ⟨hp, hrest⟩ := hdir
    refine ih ((step_deal hf a).filed hf) hrest
      (fun t ht => hsub t (List.mem_cons_of_mem a ht)) (hK.step hf hp (fun t he => ?_) h)
    exact hsub t (he ▸ List.mem_cons_self)

theorem run_accepting (hv : s.view.Filed) {actions : List Action} (hend : .shutdown ∉ actions) :
    (s.run actions).view.accepting = s.view.accepting := by
  induction actions generalizing s with
  | nil => rfl
  | cons a rest ih =>
    rw [List.mem_cons, not_or] at hend
    have hdeal := step_deal hv a
    exact (ih (hdeal.filed hv) hend.2).trans (hdeal.accepting hv (Ne.symm hend.1))

/-- Callbacks and tasks speak of what is there, as long as the manager is told of registered
consumers only. -/
theorem keeps_recorded : Keeps View.Recorded where
  interlude := fun _ hi hg h => hi.recorded h hg
  work := by
    intro s _ h
    rcases s.runUpdate_cases with he | ⟨t, rest, s₁, hw, hview, he⟩
    · rw [he]
      exact h
    · obtain ⟨hpop, href⟩ := h.pop hw
      rw [← hview] at hpop href
      rw [he]
      exact (s₁.perform_taskEffects t).recorded hpop href
  close := fun h => h.of_eq rfl rfl rfl fun _ ht => ht
  clear := fun h => h.of_eq rfl rfl rfl fun _ ht => ht

end Session
end Provisioning
