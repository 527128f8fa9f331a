import Provisioning.Proofs.Generations
import Provisioning.Proofs.Moves
import Provisioning.Proofs.Holders

/-! # Deliveries that are repeated

Whoever is handed a generation of a record is marked for it, and tasks pass over those that are
marked.  A change of the owner does not: it serves whoever may see the record now and did not see
it under the former owner, whether marked or not.  When two such changes wait together, both are
told of the last owner.  The second then repeats to a consumer what the first has delivered, or
what an update has in between.

For this to be exact, marks have to stand for deliveries: whoever is marked was handed the
generation, and has not lost the record since (`Earned`).  The account of a run says the converse.
-/
namespace Provisioning

open Relation (ReflTransGen)

namespace Call

variable {access : Option AccessCheck} {made more : List Call} {k : Call} {h : Handle}
variable {service g : Nat}

/-- A service was handed a generation of a record, and has not lost the record since. -/
def InHand (access : Option AccessCheck) (made : List Call) (h : Handle) (service g : Nat) :
    Prop :=
  ∃ before k after, made = before ++ k :: after ∧ k.Concerns h service ∧
    k.generation? = some g ∧ ∀ m ∈ after, m.Concerns h service → ¬m.TakesAway access

/-- A callback hands over what its consumer has in hand already: the same record under the same
generation. -/
def Repeats (access : Option AccessCheck) (made : List Call) (k : Call) : Prop :=
  ∃ h g, k.Concerns h k.consumer.service.id ∧ k.generation? = some g ∧
    InHand access made h k.consumer.service.id g

/-- What is in hand stays there as long as it is not taken away. -/
theorem InHand.append (hi : InHand access made h service g)
    (hm : ∀ k ∈ more, k.Concerns h service → ¬k.TakesAway access) :
    InHand access (made ++ more) h service g := by
  obtain ⟨before, k, after, rfl, hc, hg, hno⟩ := hi
  refine ⟨before, k, after ++ more, by simp, hc, hg, fun m hmem => ?_⟩
  rcases List.mem_append.mp hmem with hmem | hmem
  · exact hno m hmem
  · exact hm m hmem

theorem inHand_concat (hc : k.Concerns h service) (hg : k.generation? = some g) :
    InHand access (made ++ [k]) h service g :=
  ⟨made, k, [], rfl, hc, hg, fun _ hm => absurd hm List.not_mem_nil⟩

end Call

/-- A task speaks of what is there, to consumers of the right kind, and brings generations that
have been reached. -/
structure Task.Apt (v : View) (t : Task) : Prop where
  refers : t.Refers v
  addressed : t.Addressed v
  reached : ∀ m ∈ t.snapshots, m.generation ≤ (v.record m.record).counter

/-- Marks stand for deliveries: a consumer that is marked for a generation of a record was handed
it and has not lost the record since, unless the record was deleted. -/
structure View.Earned (access : Option AccessCheck) (made : List Call) (v : View) : Prop where
  access_eq : v.access = access
  /-- Nobody is kept from what belongs to its own location. -/
  own : ∀ l, v.permits l (some l) = true
  tasks : ∀ t ∈ v.waiting, t.Apt v
  marks : ∀ h, (v.record h).deleted = false → ∀ service w,
    (v.record h).watermark? service = some w →
      w ≤ (v.record h).counter ∧ Call.InHand access made h service w

section Earned

variable {access : Option AccessCheck} {made more : List Call} {t : Task} {v v' : View}
variable {h : Handle} {c : Consumer} {greeted : Option Consumer} {forgotten : Option Nat}

/-! ### What earns a mark -/

theorem View.Steady.apt (hst : v.Steady v') (ht : t.Apt v) : t.Apt v' := by
  refine ⟨ht.refers.mono (Nat.le_of_eq hst.length.symm) fun i hi =>
    (hst.content i).deleted.trans hi, ht.addressed.mono ht.refers fun i _ =>
      (hst.content i).target, fun m hm => ?_⟩
  rw [(hst.content _).counter]
  exact ht.reached m hm

/-- What has to be shown of an effect: whoever is marked now was marked before and has not lost
the record, or has earned the mark. -/
theorem View.Earned.steady (he : v.Earned access made) (hst : v.Steady v')
    (hmarks : ∀ i, (v.record i).deleted = false → ∀ service w,
      (v'.record i).watermark? service = some w →
        ((v.record i).watermark? service = some w ∧
          ∀ k ∈ more, k.Concerns i service → ¬k.TakesAway access) ∨
        (w ≤ (v.record i).counter ∧ Call.InHand access (made ++ more) i service w)) :
    v'.Earned access (made ++ more) where
  access_eq := hst.access.trans he.access_eq
  own := fun l => (hst.permits _ _).trans (he.own l)
  tasks := fun t ht => hst.apt (he.tasks t (hst.waiting ▸ ht))
  marks := by
    intro i hdel service w hw
    rw [(hst.content i).deleted] at hdel
    rw [(hst.content i).counter]
    rcases hmarks i hdel service w hw with ⟨hold, hno⟩ | hnew
    · obtain ⟨hle, hin⟩ := he.marks i hdel service w hold
      exact ⟨hle, hin.append hno⟩
    · exact hnew

/-- A callback concerns its consumer and the record that it is about, and no others. -/
theorem View.concerns_hear {target : Target} {p : Option Properties} {o : Option Occasion}
    {k : Call} (hk : k ∈ ((target.call? c p).map fun m => (⟨c, m, o⟩ : Call)).toList)
    {i : Handle} {service : Nat} (hc : k.Concerns i service) :
    service = c.service.id ∧ ∃ o', o = some o' ∧ i = o'.record := by
  obtain ⟨m, -, rfl⟩ := Option.map_eq_some_iff.mp (Option.mem_toList.mp hk)
  obtain ⟨hid, o', ho, hr⟩ := hc
  exact ⟨hid.symm, o', ho, hr.symm⟩

/-- A callback about one record, with a change of its consumer's mark there, leaves all other
marks as they were and takes nothing from those that have them. -/
theorem View.mark_other {target : Target} {p : Option Properties} {o : Occasion}
    {f : Record → Record} {i : Handle} {service w : Nat}
    (hother : ¬(i = o.record ∧ service = c.service.id))
    (hf : service ≠ c.service.id → ∀ r : Record, (f r).watermark? service = r.watermark? service)
    (hw : (((v.hear target c p (some o)).change o.record f).record i).watermark? service =
      some w) :
    (v.record i).watermark? service = some w ∧
      ∀ k ∈ ((target.call? c p).map fun m => (⟨c, m, some o⟩ : Call)).toList,
        k.Concerns i service → ¬k.TakesAway access := by
  refine ⟨?_, fun k hk hc _ => ?_⟩
  · rw [View.record_hear_change, View.record_change] at hw
    split at hw
    · next hi =>
      rw [hf (fun hs => hother ⟨hi.1, hs⟩)] at hw
      exact hi.1 ▸ hw
    · exact hw
  · obtain ⟨hid, o', ho, rfl⟩ := View.concerns_hear hk hc
    cases ho
    exact hother ⟨rfl, hid⟩

/-- What is handed over goes to a consumer of the kind that it is addressed to. -/
theorem Task.Brings.kind {g : Nat} {p : Properties} (hb : t.Brings v h c g p)
    (ha : t.Addressed v) : c.kind = (t.address v h).kind := by
  cases t with
  | deliver =>
    obtain ⟨rfl, -, -, hc, -⟩ := hb
    exact (Target.mem_resolve.mp hc).2.2.1
  | relocate =>
    obtain ⟨rfl, -, -, hc, -⟩ := hb
    exact (Target.mem_resolve.mp hc).2.2.1
  | attach =>
    obtain ⟨rfl, -, -⟩ := hb
    exact ha
  | attachFactory =>
    obtain ⟨rfl, hm, -⟩ := hb
    exact ha.1.trans (ha.2 _ hm).symm
  | retract => exact hb.elim

/-- What is handed over is a generation that the record has reached, and no older than what the
consumer is marked for. -/
theorem View.Earned.newest (he : v.Earned access made) (ht : t.Apt v) {g : Nat} {p : Properties}
    (sees : v.MaySee h c) (hb : t.Brings v h c g p) :
    g ≤ (v.record h).counter ∧
      ∀ w, (v.record h).watermark? c.service.id = some w → w ≤ g := by
  rcases hb.snapshot_or with ⟨hm, hn⟩ | ⟨rfl, -⟩
  · refine ⟨ht.reached _ hm, fun w hw => ?_⟩
    exact Nat.le_of_lt ((v.record h).deliveredTo_eq_false_iff.mp hn w hw)
  · exact ⟨Nat.le_refl _, fun w hw => (he.marks h sees.undeleted _ w hw).1⟩

/-- What is said about a record to a consumer that may see it takes nothing away. -/
theorem View.Earned.not_takesAway (he : v.Earned access made) (sees : v.MaySee h c) {k : Call}
    {g : Option (Properties × Nat)} (hc : k.consumer = c)
    (ho : k.occasion = some ⟨h, v.record h, g⟩) : ¬k.TakesAway access := by
  rintro ⟨-, o, ho', -, hdel | hno⟩
  · cases ho.symm.trans ho'
    rw [sees.undeleted] at hdel
    cases hdel
  · cases ho.symm.trans ho'
    rw [hc, ← he.access_eq] at hno
    exact absurd ((sees.permits he.own).symm.trans hno) (by decide)

/-- **Each effect that marks a consumer hands over what the mark stands for**, and each that takes
a record away takes the mark with it. -/
theorem TaskEffect.earned (hd : TaskEffect t v v') (ht : t.Apt v) (he : v.Earned access made) :
    ∃ more, v'.calls = v.calls ++ more ∧ v'.Earned access (made ++ more) := by
  have hst := hd.steady
  have hquiet : v'.calls = v.calls → (∀ i service, (v'.record i).watermark? service =
      (v.record i).watermark? service) →
        ∃ more, v'.calls = v.calls ++ more ∧ v'.Earned access (made ++ more) := by
    intro hc hm
    refine ⟨[], by rw [hc, List.append_nil], he.steady hst fun i _ service w hw => Or.inl ?_⟩
    exact ⟨(hm i service).symm.trans hw, fun k hk => absurd hk List.not_mem_nil⟩
  cases hd with
  | @bind _ _ h c =>
    refine hquiet rfl fun i service => ?_
    exact v.record_change_of_eq (q := fun r => r.watermark? service)
      (fun r => r.watermark?_bind _ _) h i
  | @advance _ h g =>
    refine hquiet rfl fun i service => ?_
    exact v.record_change_of_eq (q := fun r => r.watermark? service)
      (f := fun r => r.advance g) (fun _ => rfl) h i
  | strike _ filing =>
    obtain ⟨rosters, rfl⟩ := filing.exists_rosters
    exact hquiet rfl fun _ _ => rfl
  | @serve _ _ h c g p sees brings =>
    obtain ⟨hle, hnew⟩ := he.newest ht sees brings
    refine ⟨_, rfl, he.steady hst fun i _ service w hw => ?_⟩
    by_cases hmine : i = h ∧ service = c.service.id
    · -- the new mark is the generation that was served
      obtain ⟨rfl, rfl⟩ := hmine
      right
      rw [View.record_hear_change, View.record_change_self _ (brings.lt ht.refers),
        Record.watermark?_note_new _ hnew] at hw
      cases hw
      refine ⟨hle, ?_⟩
      unfold Target.call?
      rw [if_pos (beq_iff_eq.mpr (brings.kind ht.addressed))]
      exact Call.inHand_concat ⟨rfl, _, rfl, rfl⟩ rfl
    · exact Or.inl (View.mark_other hmine (fun hs r => by rw [r.watermark?_note, if_neg hs]) hw)
  | @revoke _ h c former undeleted target saw unseen =>
    refine ⟨_, rfl, he.steady hst fun i _ service w hw => Or.inl ?_⟩
    by_cases hmine : i = h ∧ service = c.service.id
    · -- the mark is gone
      obtain ⟨rfl, rfl⟩ := hmine
      rw [View.record_hear_change, View.record_change_self _ (ht.refers.relocated _ _ rfl),
        Record.watermark?_forget, if_pos rfl] at hw
      cases hw
    · exact View.mark_other hmine (fun hs r => by rw [r.watermark?_forget, if_neg hs]) hw
  | @retract _ h c owner target saw =>
    refine ⟨_, rfl, he.steady hst fun i hdel service w hw => Or.inl ⟨hw, fun k hk hc _ => ?_⟩⟩
    -- only the deleted record is taken away
    obtain ⟨-, o, ho, rfl⟩ := View.concerns_hear hk hc
    cases ho
    rw [ht.refers.retracted _ _ rfl] at hdel
    cases hdel
  | greet =>
    refine ⟨_, rfl, he.steady hst fun i _ service w hw => Or.inl ⟨hw, fun k hk hc _ => ?_⟩⟩
    obtain ⟨-, o, ho, -⟩ := View.concerns_hear hk hc
    cases ho
  | @greetEmpty _ h c pid g sees =>
    -- a first word goes to a consumer that may see the record
    refine ⟨_, rfl, he.steady hst fun i _ service w hw => Or.inl ⟨hw, fun k hk _ => ?_⟩⟩
    obtain ⟨m, -, rfl⟩ := Option.map_eq_some_iff.mp (Option.mem_toList.mp hk)
    exact he.not_takesAway sees rfl rfl

theorem TaskEffects.earned (hd : TaskEffects t v v') (ht : t.Apt v) (he : v.Earned access made) :
    ∃ more, v'.calls = v.calls ++ more ∧ v'.Earned access (made ++ more) := by
  induction hd with
  | refl => exact ⟨[], by simp, by simpa using he⟩
  | tail hfirst hlast ih =>
    obtain ⟨more, hm, he₁⟩ := ih
    obtain ⟨more', hm', he₂⟩ := hlast.earned ((TaskEffects.steady hfirst).apt ht) he₁
    exact ⟨more ++ more', by rw [hm', hm, List.append_assoc], by rwa [← List.append_assoc]⟩

/-- The task that waits longest is taken from the line. -/
theorem View.Earned.pop (he : v.Earned access made) {rest : List Task}
    (hw : v.waiting = t :: rest) :
    ({ v with waiting := rest } : View).Earned access made ∧ t.Apt { v with waiting := rest } := by
  have hapt : ∀ {t' : Task}, t'.Apt v → t'.Apt { v with waiting := rest } := fun ht =>
    ⟨⟨ht.refers.captured, ht.refers.relocated, ht.refers.retracted⟩,
      ht.addressed.of_records rfl, ht.reached⟩
  refine ⟨⟨he.access_eq, he.own, fun t' ht => hapt (he.tasks t' ?_), he.marks⟩,
    hapt (he.tasks t ?_)⟩
  · exact hw ▸ List.mem_cons_of_mem t ht
  · exact hw ▸ List.mem_cons_self

theorem View.works_earned (hw : ReflTransGen View.Work v v') (he : v.Earned access made) :
    ∃ more, v'.calls = v.calls ++ more ∧ v'.Earned access (made ++ more) := by
  induction hw with
  | refl => exact ⟨[], by simp, by simpa using he⟩
  | tail _ hlast ih =>
    obtain ⟨more, hm, he₁⟩ := ih
    cases hlast with
    | work waiting effects =>
      obtain ⟨hpop, hapt⟩ := he₁.pop waiting
      obtain ⟨more', hm', he₂⟩ := effects.earned hapt hpop
      refine ⟨more ++ more', ?_, by rwa [← List.append_assoc]⟩
      rw [hm', ← List.append_assoc]
      exact congrArg (· ++ more') hm

/-- Whatever is not work gives no marks. -/
theorem View.Earned.interlude (he : v.Earned access made) (hi : v.Interlude greeted v')
    (hf : View.Front greeted forgotten v v') : v'.Earned access made where
  access_eq := hi.access.trans he.access_eq
  own := fun l => (hi.permits _ _).trans (he.own l)
  tasks := by
    intro t ht
    have hreached : (∀ m ∈ t.snapshots, v'.Shows m) →
        ∀ m ∈ t.snapshots, m.generation ≤ (v'.record m.record).counter := fun hs m hm =>
      Nat.le_of_eq (congrArg Snapshot.generation (hs m hm).2)
    have hkept : t ∈ v.waiting → t.Apt v' := by
      intro hold
      have hapt := he.tasks t hold
      refine ⟨hapt.refers.mono hi.length hi.deleted, hapt.addressed.mono hapt.refers hi.target,
        fun m hm => ?_⟩
      exact Nat.le_trans (hapt.reached m hm) (hf.ages.counter _ (hapt.refers.captured m hm))
    rcases hi.tasks t ht with hold | ⟨href, haddr, -⟩
    · exact hkept hold
    · rcases hf.tasks t ht with hold | ⟨hshows, -⟩
      · exact hkept hold
      · exact ⟨href, haddr, hreached hshows⟩
  marks := by
    intro i hdel service w hw
    have hold := hi.marks i service w hw
    have hdel' : (v.record i).deleted = false := by
      by_contra hx
      rw [hi.deleted i (by simpa using hx)] at hdel
      cases hdel
    obtain ⟨hle, hin⟩ := he.marks i hdel' service w hold
    refine ⟨Nat.le_trans hle ?_, hin⟩
    rcases Nat.lt_or_ge i v.records.length with hlt | hge
    · exact hf.ages.counter i hlt
    · -- a record that is not there has no marks
      rw [v.record_of_length_le hge] at hold
      cases hold

/-- Nothing but the records, the callbacks and the waiting tasks counts. -/
theorem View.Earned.of_eq (he : v.Earned access made) (ha : v'.access = v.access)
    (hr : v'.records = v.records) (hw : v'.waiting = v.waiting) : v'.Earned access made := by
  have hrec : ∀ i, v'.record i = v.record i := by
    intro i
    unfold View.record
    rw [hr]
  refine ⟨ha.trans he.access_eq, fun l => (View.permits_of_access ha _ _).trans (he.own l),
    fun t ht => ?_, fun i => by rw [hrec]; exact he.marks i⟩
  have hapt := he.tasks t (hw ▸ ht)
  refine ⟨hapt.refers.mono (Nat.le_of_eq (by rw [hr])) fun i hi => (hrec i).symm ▸ hi,
    hapt.addressed.of_records hr, fun m hm => ?_⟩
  rw [hrec]
  exact hapt.reached m hm

/-- **Steps keep marks earned.** -/
theorem View.Deal.earned {admits : Record → Prop} {a : Action} (hd : View.Deal admits a v v')
    (hv : v.Filed) (hsub : ∀ t, a ≠ .submit t) (he : v.Earned access made) :
    ∃ more, v'.calls = v.calls ++ more ∧ v'.Earned access (made ++ more) := by
  have hsilent : v'.calls = v.calls → v'.Earned access made →
      ∃ more, v'.calls = v.calls ++ more ∧ v'.Earned access (made ++ more) := by
    intro hc he'
    exact ⟨[], by rw [hc, List.append_nil], by rwa [List.append_nil]⟩
  by_cases haround : ∃ action, a = .around action
  · obtain ⟨action, rfl⟩ := haround
    cases hd with
    | nothing | around | extend => exact hsilent rfl (he.of_eq rfl rfl rfl)
    | call administrative => cases administrative
  by_cases hq : a.isQuiet = true
  · have hfront := hd.front hv hq
    exact hsilent hfront.calls
      (he.interlude (hd.interlude hv hq fun action hx => absurd ⟨action, hx⟩ haround) hfront)
  cases hd with
  | nothing | extend => exact hsilent rfl (he.of_eq rfl rfl rfl)
  | call administrative =>
    refine absurd ?_ hq
    cases a <;> first | rfl | cases administrative
  | register | withdraw | uninstall | around => exact absurd rfl hq
  | submit => exact absurd rfl (hsub _)
  | work hw => exact View.works_earned (.single hw) he
  | stop works =>
    have hclosed : ({ v with accepting := false } : View).Earned access made :=
      he.of_eq rfl rfl rfl
    obtain ⟨more, hm, he'⟩ := View.works_earned works hclosed
    exact ⟨more, hm, he'.of_eq rfl rfl rfl⟩

end Earned

/-! ### What an effect repeats -/

section Repeats

variable {shown : Handle → Nat → Option Properties → Prop} {gone : Nat → Prop}
variable {announced : Consumer → Prop} {access : Option AccessCheck} {made : List Call}
variable {t : Task} {v v' : View} {k : Call} {o : Occasion} {p : Properties} {g : Nat}

/-- A callback that hands something over is that of an effect which serves its consumer. -/
theorem TaskEffect.serves (hd : TaskEffect t v v') (hk : v'.calls = v.calls ++ [k])
    (ho : k.occasion = some o) (hg : o.given = some (p, g)) :
    o.standing = v.record o.record ∧ v.MaySee o.record k.consumer ∧
      t.Brings v o.record k.consumer g p := by
  have hone : ∀ {target : Target} {c : Consumer} {p' : Option Properties} {o' : Option Occasion},
      (v.hear target c p' o').calls = v.calls ++ [k] → k.consumer = c ∧ o' = some o := by
    intro target c p' o' hx
    have hmem : k ∈ ((target.call? c p').map fun m => (⟨c, m, o'⟩ : Call)).toList := by
      rw [List.append_cancel_left hx]
      exact List.mem_cons_self
    obtain ⟨m, -, rfl⟩ := Option.map_eq_some_iff.mp (Option.mem_toList.mp hmem)
    exact ⟨rfl, ho⟩
  have hsilent : v.calls ≠ v.calls ++ [k] := by simp
  cases hd with
  | bind | advance => exact absurd hk hsilent
  | strike _ filing =>
    obtain ⟨rosters, rfl⟩ := filing.exists_rosters
    exact absurd hk hsilent
  | serve sees brings =>
    obtain ⟨rfl, hocc⟩ := hone hk
    cases hocc
    cases hg
    exact ⟨rfl, sees, brings⟩
  | revoke | retract | greetEmpty =>
    obtain ⟨-, hocc⟩ := hone hk
    cases hocc
    cases hg
  | greet =>
    obtain ⟨-, hocc⟩ := hone hk
    cases hocc

/-- What is brought to a consumer that is marked for it comes with a change of the owner. -/
theorem Task.Brings.relocates {h : Handle} {c : Consumer} (hb : t.Brings v h c g p)
    (hmark : (v.record h).deliveredTo c.service.id g = true) :
    (v.record h).counter = g ∧
      ∃ former, t = .relocate h former ∧ v.permits c.service.location former = false := by
  cases t with
  | relocate h' former =>
    obtain ⟨rfl, hg, -, -, hformer⟩ := hb
    exact ⟨hg, former, rfl, hformer⟩
  | deliver =>
    obtain ⟨rfl, rfl, rfl, -, hn⟩ := hb
    rw [hn] at hmark
    cases hmark
  | attach =>
    obtain ⟨rfl, rfl, hn⟩ := hb
    rw [hn] at hmark
    cases hmark
  | attachFactory =>
    obtain ⟨rfl, -, hn⟩ := hb
    rw [hn] at hmark
    cases hmark
  | retract => exact hb.elim

/-- What an effect hands over is in hand already exactly if the consumer is marked for it. -/
theorem TaskEffect.repeats_iff (hd : TaskEffect t v v') (hk : v'.calls = v.calls ++ [k])
    (ho : k.occasion = some o) (hg : o.given = some (p, g))
    (ha : Account shown gone announced access made v) (he : v.Earned access made)
    (hcap : ∀ c, t.consumer? = some c → announced c)
    (halive : ∀ c, c ∈ v.directory.consumers ∨ announced c → gone c.service.id →
      v.directory.isLive c.service = false) :
    k.Repeats access made ↔ o.standing.deliveredTo k.consumer.service.id g = true := by
  obtain ⟨hstanding, hsees, hbrings⟩ := hd.serves hk ho hg
  have hgen : k.generation? = some g := by
    rw [Call.generation?_of_occasion ho, hg]
    rfl
  rw [hstanding]
  constructor
  · rintro ⟨h, g', ⟨-, o', ho', rfl⟩, hg', before, k', after, hm, hc, hk', hno⟩
    rw [ho] at ho'
    cases ho'
    rw [hgen] at hg'
    cases hg'
    rcases ha.marked before k' after hm _ _ _ hc hk' hno with hgone | hmark
    · -- whoever is served is there, so that its mark was not dropped
      have hdead := halive k.consumer (hbrings.known.imp_right (hcap _)) hgone
      rw [hsees.live] at hdead
      cases hdead
    · exact (Record.deliveredTo_eq_true_iff _).mpr hmark
  · intro hmark
    obtain ⟨w, hw, hle⟩ := (Record.deliveredTo_eq_true_iff _).mp hmark
    obtain ⟨hle', hin⟩ := he.marks _ hsees.undeleted _ w hw
    obtain ⟨rfl, -⟩ := hbrings.relocates hmark
    -- the mark is for the newest generation, which is what is handed over
    rw [Nat.le_antisymm hle' hle] at hin
    exact ⟨o.record, _, ⟨rfl, o, ho, rfl⟩, hgen, hin⟩

end Repeats

/-! ### The pieces of work of a run -/

/-- Of two beginnings of a list, one that ends with an item begins the other, or has the other
before the item. -/
theorem prefix_or_of_concat {α : Type} {l l' before : List α} {x : α} (hl : l <+: l')
    (hb : before ++ [x] <+: l') : before ++ [x] <+: l ∨ l <+: before := by
  rcases List.prefix_or_prefix_of_prefix hb hl with hx | hx
  · exact Or.inl hx
  · rcases List.prefix_concat_iff.mp hx with he | hx
    · exact Or.inl (he ▸ List.prefix_rfl)
    · exact Or.inr hx

theorem not_prefix_of_concat {α : Type} {l before : List α} {x : α} (hb : before ++ [x] <+: l) :
    ¬l <+: before := by
  intro hl
  have hlen := (hb.trans hl).length_le
  rw [List.length_append, List.length_singleton] at hlen
  omega

/-- An effect makes one callback at most. -/
theorem TaskEffect.calls_or {t : Task} {v v' : View} (hd : TaskEffect t v v') :
    v'.calls = v.calls ∨ ∃ k, v'.calls = v.calls ++ [k] := by
  have hhear : ∀ (target : Target) (c : Consumer) (p : Option Properties) (o : Option Occasion),
      (v.hear target c p o).calls = v.calls ∨
        ∃ k, (v.hear target c p o).calls = v.calls ++ [k] := by
    intro target c p o
    unfold View.hear
    cases target.call? c p with
    | none => exact Or.inl (List.append_nil _)
    | some m => exact Or.inr ⟨_, rfl⟩
  cases hd with
  | bind | advance => exact Or.inl rfl
  | strike _ filing =>
    obtain ⟨rosters, rfl⟩ := filing.exists_rosters
    exact Or.inl rfl
  | serve | revoke | retract | greet | greetEmpty => exact hhear _ _ _ _

/-- The effect of a task that has made a callback. -/
theorem TaskEffects.made {t : Task} {v v' : View} {before : List Call} {k : Call}
    (hd : TaskEffects t v v')
    (hb : v.calls <+: before) (hk : before ++ [k] <+: v'.calls) :
    ∃ u u', TaskEffects t v u ∧ TaskEffect t u u' ∧ u.calls = before ∧
      u'.calls = u.calls ++ [k] := by
  induction hd with
  | refl => exact absurd hb (not_prefix_of_concat hk)
  | @tail v₁ v₂ hfirst hlast ih =>
    rcases hlast.calls_or with hsame | ⟨k', hone⟩
    · exact ih (hsame ▸ hk)
    · rcases prefix_or_of_concat (hone ▸ List.prefix_append _ _) hk with hk' | hb'
      · exact ih hk'
      · -- the callback is the one that the last effect has made
        rw [hone] at hk
        have hlen := hk.length_le
        rw [List.length_append, List.length_append, List.length_singleton,
          List.length_singleton] at hlen
        obtain rfl := hb'.eq_of_length_le (by omega)
        obtain ⟨rest, hrest⟩ := hk
        rw [List.append_assoc] at hrest
        have hk' := List.append_cancel_left hrest
        rw [List.singleton_append] at hk'
        obtain ⟨rfl, -⟩ := List.cons.inj hk'
        exact ⟨v₁, v₂, hfirst, hlast, rfl, hone⟩

namespace Session

variable {s s₁ : Session} {actions : List Action} {before : List Call} {k : Call}

/-- The sessions in a run whose worker is about to run a task: at a step of the worker, or when
the session is shut down and everything that waits is run. -/
inductive Works (s : Session) (actions : List Action) : Session → Prop
  | step {past : List Action} (here : past ++ [.runUpdate] <+: actions) :
    Works s actions (s.run past)
  | stop {past : List Action} (here : past ++ [.shutdown] <+: actions) (n : Nat) :
    Works s actions (runUpdates n { s.run past with updates := (s.run past).updates.close })

theorem Works.mono {more : List Action} (hw : s.Works actions s₁) :
    s.Works (actions ++ more) s₁ := by
  cases hw with
  | step here => exact .step (here.trans (List.prefix_append _ _))
  | stop here n => exact .stop (here.trans (List.prefix_append _ _)) n

/-- A callback follows the given ones and is made by the task that runs next. -/
structure Makes (s₁ : Session) (before : List Call) (k : Call) : Prop where
  begun : s₁.calls <+: before
  made : before ++ [k] <+: s₁.runUpdate.calls

theorem calls_works {v : View} (hw : ReflTransGen View.Work s.view v) : s.calls <+: v.calls := by
  obtain ⟨new, hn, -⟩ := (View.works_disclosesChecked hw).1
  exact ⟨new, hn.symm⟩

theorem runUpdates_made (n : Nat) (hb : s.calls <+: before)
    (hk : before ++ [k] <+: (runUpdates n s).calls) : ∃ m, (runUpdates m s).Makes before k := by
  induction n generalizing s with
  | zero => exact absurd hb (not_prefix_of_concat hk)
  | succ n ih =>
    have hgrow : s.runUpdate.calls <+: (runUpdates n s.runUpdate).calls :=
      calls_works (s.runUpdate.runUpdates_view n)
    rcases prefix_or_of_concat hgrow hk with hk' | hb'
    · exact ⟨0, hb, hk'⟩
    · obtain ⟨m, hm⟩ := ih hb' hk
      exact ⟨m + 1, hm⟩

/-- **Each callback of a run is made by one of its pieces of work.** -/
theorem run_made (hf : s.view.Filed) (hsub : ∀ t, .submit t ∉ actions) (hb : s.calls <+: before)
    (hk : before ++ [k] <+: (s.run actions).calls) :
    ∃ s₁, s.Works actions s₁ ∧ s₁.Makes before k := by
  induction actions using List.reverseRecOn with
  | nil => exact absurd hb (not_prefix_of_concat hk)
  | append_singleton past a ih =>
    have hf' := run_filed hf past
    obtain ⟨new, hn, -⟩ := (step_deal hf' a).disclosesChecked
    have hgrow : (s.run past).calls <+: (s.run (past ++ [a])).calls := by
      rw [run_concat]
      exact ⟨new, hn.symm⟩
    rcases prefix_or_of_concat hgrow hk with hk' | hb'
    · obtain ⟨s₁, hw, hm⟩ := ih (fun t ht => hsub t (List.mem_append_left _ ht)) hk'
      exact ⟨s₁, hw.mono, hm⟩
    · rw [run_concat] at hk
      have hnow : past ++ [a] <+: past ++ [a] := List.prefix_rfl
      by_cases hq : a.isQuiet = true
      · have hcalls : ((s.run past).step a).2.calls = (s.run past).calls :=
          ((step_deal hf' a).front hf' hq).calls
        rw [hcalls] at hk
        exact absurd hb' (not_prefix_of_concat hk)
      · cases a with
        | runUpdate => exact ⟨_, .step hnow, hb', hk⟩
        | shutdown =>
          have hk' : before ++ [k] <+: (s.run past).shutdown.view.calls := hk
          rcases (s.run past).shutdown_view with he | he
          · rw [he] at hk'
            exact absurd hb' (not_prefix_of_concat hk')
          · rw [he] at hk'
            obtain ⟨m, hm⟩ := runUpdates_made (s := { s.run past with
              updates := (s.run past).updates.close }) _ hb' hk'
            exact ⟨_, .stop hnow m, hm⟩
        | submit t => exact absurd (List.mem_append_right _ List.mem_cons_self) (hsub t)
        | _ => exact absurd rfl hq

/-- In every run marks stand for deliveries, if no consumer was marked at its beginning. -/
theorem run_earned (hf : s.view.Filed) (hsub : ∀ t, .submit t ∉ actions)
    (he : s.view.Earned s.access []) :
    ∃ made, (s.run actions).calls = s.calls ++ made ∧
      (s.run actions).view.Earned s.access made := by
  induction actions using List.reverseRecOn with
  | nil => exact ⟨[], (List.append_nil _).symm, he⟩
  | append_singleton past a ih =>
    obtain ⟨made, hm, he'⟩ := ih fun t ht => hsub t (List.mem_append_left _ ht)
    have hf' := run_filed hf past
    obtain ⟨more, hm', he''⟩ := (step_deal hf' a).earned hf' (fun t ha => hsub t (by simp [ha])) he'
    rw [run_concat]
    refine ⟨made ++ more, ?_, he''⟩
    rw [← List.append_assoc, ← hm]
    exact hm'

/-- A piece of work follows a part of the run, and the work before it if the session is shut
down. -/
theorem Works.exists_past (hw : s.Works actions s₁) :
    ∃ past accepting, past <+: actions ∧
      ReflTransGen View.Work { (s.run past).view with accepting } s₁.view := by
  cases hw with
  | @step past here =>
    exact ⟨past, (s.run past).view.accepting, (List.prefix_append _ _).trans here, .refl⟩
  | @stop past here n =>
    exact ⟨past, false, (List.prefix_append _ _).trans here,
      runUpdates_view { s.run past with updates := (s.run past).updates.close } n⟩

end Session

/-- No consumer is marked as having taken anything yet. -/
def World.Unserved (w : World) : Prop := ∀ r ∈ w.records, r.watermarks = []

namespace Session

variable {s s₁ : Session} {actions : List Action} {before : List Call} {k : Call}

theorem start_earned {w : World} (hown : w.Courteous) (hw : w.Unserved) {settings : Settings}
    (hs : start w settings = .ok s) : s.view.Earned s.access [] := by
  have hview := start_view hs
  have haccess : s.access = w.access := congrArg View.access hview
  rw [hview, haccess]
  refine ⟨rfl, fun l => hown.permits_own l, fun t ht => absurd ht List.not_mem_nil,
    fun h _ service m hm => ?_⟩
  -- a record that is there has no marks, and neither has one that is not
  unfold View.record at hm
  cases hr : w.records[h]? with
  | none =>
    rw [hr] at hm
    cases hm
  | some r =>
    rw [hr] at hm
    unfold Option.getD Record.watermark? at hm
    dsimp only at hm
    rw [hw r (List.mem_of_getElem? hr)] at hm
    cases hm

/-- When a task is taken up, the run has its account, and marks stand for deliveries. -/
theorem Works.ledger (hw : s.Works actions s₁) (hf : s.view.Filed) (hq : s.view.waiting = [])
    (hsub : ∀ t, .submit t ∉ actions) (hgone : s.WithdrawnStayGone actions)
    (he : s.view.Earned s.access []) :
    ∃ shown gone announced made, s₁.calls = s.calls ++ made ∧
      Account shown gone announced s.access made s₁.view ∧ s₁.view.Earned s.access made ∧
      ∀ c, c ∈ s₁.directory.consumers ∨ announced c → gone c.service.id →
        s₁.directory.isLive c.service = false := by
  obtain ⟨past, accepting, hpast, hworks⟩ := hw.exists_past
  have hsub' : ∀ t, .submit t ∉ past := fun t ht => hsub t (hpast.subset ht)
  obtain ⟨made, hm, ha⟩ := run_account hf hq hsub' fun front hp => hgone front (hp.trans hpast)
  obtain ⟨made', hm', he'⟩ := run_earned hf hsub' he
  obtain rfl : made = made' := List.append_cancel_left (hm.symm.trans hm')
  have ha₀ : Account (s.Showed past) (fun id => .consumerWithdrawn id ∈ past)
      (fun c => .consumerRegistered c ∈ past) s.access made { (s.run past).view with accepting } :=
    ⟨ha.access_eq, ha.reached, ha.current, ha.captured, ha.given, ha.marked, ha.ordered⟩
  have he₀ : ({ (s.run past).view with accepting } : View).Earned s.access made :=
    he'.of_eq rfl rfl rfl
  have halive : ∀ c, c ∈ (s.run past).directory.consumers ∨ .consumerRegistered c ∈ past →
      .consumerWithdrawn c.service.id ∈ past → (s.run past).directory.isLive c.service = false :=
    fun c hc hid => hgone past hpast c hid hc
  obtain ⟨more, hmore, ha₁⟩ := View.works_account hworks ha₀ halive
  obtain ⟨more', hmore', he₁⟩ := View.works_earned hworks he₀
  obtain rfl : more = more' := List.append_cancel_left (hmore.symm.trans hmore')
  have hdir : s₁.view.directory = (s.run past).directory :=
    (View.works_disclosesChecked hworks).2.directory
  refine ⟨_, _, _, made ++ more, ?_, ha₁, he₁, fun c hc hid => ?_⟩
  · rw [← List.append_assoc, ← hm]
    exact hmore
  · show s₁.view.directory.isLive c.service = false
    have hc' : c ∈ s₁.view.directory.consumers ∨ _ := hc
    rw [hdir] at hc' ⊢
    exact halive c hc' hid

/-- The effect that makes a callback, and what is known when it does. -/
theorem Makes.taskEffect {made : List Call} {shown : Handle → Nat → Option Properties → Prop}
    {gone : Nat → Prop} {announced : Consumer → Prop} {access : Option AccessCheck}
    (hmakes : s₁.Makes before k) (ha : Account shown gone announced access made s₁.view)
    (he : s₁.view.Earned access made)
    (halive : ∀ c, c ∈ s₁.directory.consumers ∨ announced c → gone c.service.id →
      s₁.directory.isLive c.service = false) :
    ∃ t u u' more, s₁.updates.waiting.head? = some t ∧ TaskEffect t u u' ∧ s₁.view.KeptByTasks u ∧
      u.calls = before ∧ u'.calls = u.calls ++ [k] ∧ before = s₁.calls ++ more ∧
      Account shown gone announced access (made ++ more) u ∧ u.Earned access (made ++ more) ∧
      (∀ c, t.consumer? = some c → announced c) := by
  rcases s₁.runUpdate_cases with hidle | ⟨t, rest, s₂, hw, hview, hrun⟩
  · exact absurd hmakes.begun (not_prefix_of_concat (hidle ▸ hmakes.made))
  obtain ⟨hpop, hapt⟩ := he.pop hw
  have hcap := ha.captured t (hw ▸ List.mem_cons_self)
  have hpopped : Account shown gone announced access made s₂.view := by
    rw [hview]
    exact ⟨ha.access_eq, ha.reached, ha.current,
      fun t' ht => ha.captured t' (hw ▸ List.mem_cons_of_mem t ht), ha.given, ha.marked,
      ha.ordered⟩
  have hbegun : s₂.view.calls <+: before := by
    rw [hview]
    exact hmakes.begun
  have hmade : before ++ [k] <+: (s₂.perform t).view.calls := hrun ▸ hmakes.made
  obtain ⟨u, u', heffects, heffect, hu, hk⟩ := (s₂.perform_taskEffects t).made hbegun hmade
  rw [hview] at heffects hpopped
  obtain ⟨more, hm, hau⟩ := heffects.account hpopped hcap halive
  obtain ⟨more', hm', heu⟩ := heffects.earned hapt hpop
  obtain rfl : more = more' := List.append_cancel_left (hm.symm.trans hm')
  have hhead : s₁.updates.waiting = t :: rest := hw
  have hkept := heffects.steady.keptByTasks
  refine ⟨t, u, u', more, by rw [hhead]; rfl, heffect, ?_, hu, hk, hu.symm.trans hm, hau, heu,
    hcap.2⟩
  exact ⟨hkept.length, hkept.directory, hkept.access, hkept.plugins, hkept.content, hkept.owned⟩

/-- **When a delivery is repeated.**  A consumer is handed a generation of a record that it has in
hand already exactly if it is marked for the generation when it is called, and a change of the
owner is told to it under which it gains the record: the newest generation is then handed over
whatever the mark says. -/
theorem deliveries_repeat_iff {w : World} (hown : w.Courteous) (hw : w.Unserved)
    {settings : Settings} (hs : start w settings = .ok s) (hsub : ∀ t, .submit t ∉ actions)
    (hgone : s.WithdrawnStayGone actions) {after : List Call}
    (he : (s.run actions).calls.drop s.calls.length = before ++ k :: after) {o : Occasion}
    {p : Properties} {g : Nat} (ho : k.occasion = some o) (hg : o.given = some (p, g)) :
    k.Repeats s.access before ↔ o.standing.deliveredTo k.consumer.service.id g = true ∧
      ∃ s₁ former, s.Works actions s₁ ∧ s₁.Makes (s.calls ++ before) k ∧
        s₁.updates.waiting.head? = some (.relocate o.record former) ∧
        s₁.permits k.consumer.service.location former = false ∧
        (s₁.record o.record).counter = g := by
  have hf := start_filed hs
  have hq : s.view.waiting = [] := by rw [start_view hs]
  obtain ⟨new, hn⟩ := run_calls hf actions
  rw [hn, List.drop_left] at he
  obtain ⟨s₁, hworks, hmakes⟩ : ∃ s₁, s.Works actions s₁ ∧ s₁.Makes (s.calls ++ before) k := by
    refine run_made hf hsub (List.prefix_append _ _) ?_
    rw [hn, he]
    exact ⟨after, by simp⟩
  obtain ⟨shown, gone, announced, made, hm, ha, hearned, halive⟩ :=
    hworks.ledger hf hq hsub hgone (start_earned hown hw hs)
  obtain ⟨t, u, u', more, hhead, heffect, hkept, -, hk, hbefore, hau, heu, hcap⟩ :=
    hmakes.taskEffect ha hearned halive
  obtain rfl : before = made ++ more := by
    rw [hm, List.append_assoc] at hbefore
    exact List.append_cancel_left hbefore
  have hdir : u.directory = s₁.directory := hkept.directory
  rw [heffect.repeats_iff hk ho hg hau heu hcap (by rw [hdir]; exact halive)]
  refine ⟨fun hmark => ⟨hmark, ?_⟩, fun hboth => hboth.1⟩
  obtain ⟨hstanding, -, hbrings⟩ := heffect.serves hk ho hg
  rw [hstanding] at hmark
  obtain ⟨hcounter, former, rfl, hformer⟩ := hbrings.relocates hmark
  refine ⟨s₁, former, hworks, hmakes, hhead, ?_, ?_⟩
  · rw [← permits_view, ← View.permits_of_access hkept.access]
    exact hformer
  · exact (hkept.content o.record).counter.symm.trans hcounter

/-- A record moves away from where a consumer does not see it, and on to the location of the
consumer, before the first of the two moves is told. -/
def regained : List Action :=
  [.around (.addConsumer .single "here" ["pid"] 0), .getOrCreate "pid" (some "elsewhere"),
    .update "pid" .empty, .runUpdate, .setLocation "pid" (some "there"),
    .setLocation "pid" (some "here"), .runUpdate, .runUpdate]

/-- Nobody is withdrawn, and so whoever was withdrawn stays away. -/
theorem withdrawnStayGone_regained (s : Session) : s.WithdrawnStayGone regained := by
  intro before hp c hc
  have hin := hp.subset hc
  simp [regained] at hin

/-- The consumer is called twice, both times with the properties of the record and under the same
generation, and it is marked when it is called again. -/
theorem calls_regained {s : Session} (hs : start {} {} = .ok s) :
    ∃ k k' o o' p p', (s.run regained).calls.drop s.calls.length = [k, k'] ∧
      k.consumer.service.id = k'.consumer.service.id ∧ k.occasion = some o ∧
      k'.occasion = some o' ∧ o.record = 0 ∧ o'.record = 0 ∧ o.given = some (p, 3) ∧
      o'.given = some (p', 3) ∧ o'.standing.deliveredTo k'.consumer.service.id 3 = true ∧
      k.message.properties? ≠ none ∧ k'.message.properties? ≠ none ∧
      (s.run (regained.take 7)).calls = [k] ∧
      (s.run (regained.take 7)).permits k'.consumer.service.location (some "there") = false := by
  cases hs
  refine ⟨_, _, _, _, _, _, rfl, rfl, rfl, rfl, rfl, rfl, rfl, rfl, ?_, ?_, ?_, rfl, ?_⟩
  · decide
  · exact Option.some_ne_none _
  · exact Option.some_ne_none _
  · decide

/-- The first move has brought the record to the consumer already, for it is told of the last
owner; the second one brings it again. -/
theorem deliveries_repeat_iff_regained :
    ∃ s k k' o' p', World.Courteous {} ∧ World.Unserved {} ∧ start {} {} = .ok s ∧
      (∀ t, .submit t ∉ regained) ∧ s.WithdrawnStayGone regained ∧
      (s.run regained).calls.drop s.calls.length = [k] ++ k' :: [] ∧
      k'.occasion = some o' ∧ o'.given = some (p', 3) ∧ k'.Repeats s.access [k] := by
  have hown : World.Courteous {} := by
    intro check hc
    cases hc
  have hw : World.Unserved {} := fun r hr => absurd hr List.not_mem_nil
  have hsub : ∀ t, .submit t ∉ regained := by simp [regained]
  obtain ⟨s, hs⟩ : ∃ s, start {} {} = .ok s := ⟨_, rfl⟩
  obtain ⟨k, k', o, o', p, p', hcalls, -, -, ho', -, hr', -, hg', hmark, -, -, hfirst, hhidden⟩ :=
    calls_regained hs
  have hgone := s.withdrawnStayGone_regained
  have hnone : s.calls = [] := by
    cases hs
    rfl
  have hall : (s.run regained).calls = [k, k'] := by
    rw [← hcalls, hnone]
    rfl
  refine ⟨s, k, k', o', p', hown, hw, hs, hsub, hgone, hcalls, ho', hg', ?_⟩
  refine (deliveries_repeat_iff hown hw hs hsub hgone hcalls ho' hg').mpr ⟨hmark,
    s.run (regained.take 7), some "there", .step List.prefix_rfl, ⟨?_, ?_⟩, ?_, hhidden, ?_⟩
  · show (s.run (regained.take 7)).calls <+: s.calls ++ [k]
    have hsame : (s.run (regained.take 7)).calls = s.calls ++ [k] := by
      rw [hfirst, hnone, List.nil_append]
    exact hsame ▸ List.prefix_rfl
  · have hsame : s.calls ++ [k] ++ [k'] = (s.run regained).calls := by
      rw [hall, hnone]
      rfl
    exact hsame ▸ List.prefix_rfl
  · rw [hr']
    cases hs
    rfl
  · rw [hr']
    cases hs
    rfl

/-- The consumer is handed the same record twice under one generation, with no callback between. -/
theorem delivery_repeated_regained :
    ∃ s k k', start {} {} = .ok s ∧ (∀ t, .submit t ∉ regained) ∧
      s.WithdrawnStayGone regained ∧ (s.run regained).calls.drop s.calls.length = [k, k'] ∧
      k.Concerns 0 k.consumer.service.id ∧ k'.Concerns 0 k.consumer.service.id ∧
      k.generation? = some 3 ∧ k'.generation? = some 3 ∧
      k.message.properties? ≠ none ∧ k'.message.properties? ≠ none := by
  obtain ⟨s, hs⟩ : ∃ s, start {} {} = .ok s := ⟨_, rfl⟩
  obtain ⟨k, k', o, o', p, p', hcalls, hid, ho, ho', hr, hr', hg, hg', -, hp, hp', -, -⟩ :=
    calls_regained hs
  refine ⟨s, k, k', hs, by simp [regained], s.withdrawnStayGone_regained, hcalls,
    ⟨rfl, o, ho, hr⟩, ⟨hid.symm, o', ho', hr'⟩, ?_, ?_, hp, hp'⟩
  · rw [Call.generation?_of_occasion ho, hg]
    rfl
  · rw [Call.generation?_of_occasion ho', hg']
    rfl

end Session
end Provisioning
