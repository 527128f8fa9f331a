import Provisioning.Proofs.Disclosure
import Provisioning.Proofs.Holders

/-! # Whom the properties of a record reach

Updates, changes of the owner and deletions look their consumers up by the target of the record.
The first delivery to a new consumer looks nobody up: it goes to the consumer that was announced,
under one of the identities that the consumer lists.  Both ways agree on everything but the
members of factories.  A member is for the consumers of its factory, and yet a consumer of single
configurations that lists the pid of the member is handed the properties when it is attached, and
is told of no later change.

`Target.ListedBy` says under which identity a consumer comes by a record; it is shown of every
first delivery that waits and of every callback that was made (`Session.run_attended`).
-/
namespace Provisioning

open Relation (ReflTransGen)

/-- A consumer lists the identity under which consumers of its kind ask for a record: the pid of
the record, or the factory that the record is a member of. -/
def Target.ListedBy (t : Target) (c : Consumer) : Prop :=
  match c.kind with
  | .single => t.pid ∈ c.service.pids
  | .factory => t.kind = .factory ∧ t.identity ∈ c.service.pids

namespace Target

variable {t : Target} {c : Consumer} {d : Directory}

theorem listedBy_of_mem_resolve (hc : c ∈ t.resolve d) : t.ListedBy c := by
  obtain ⟨-, -, hkind, hlists⟩ := mem_resolve.mp hc
  unfold ListedBy
  cases t with
  | single pid => rw [hkind]; exact hlists
  | member f pid => rw [hkind]; exact ⟨rfl, hlists⟩

/-- A live consumer that lists a record is one of its targets, if it is of their kind. -/
theorem ListedBy.mem_resolve_iff (hl : t.ListedBy c) (hc : c ∈ d.consumers)
    (hlive : d.isLive c.service = true) : c ∈ t.resolve d ↔ c.kind = t.kind := by
  refine ⟨fun hmem => (mem_resolve.mp hmem).2.2.1, fun hkind => ?_⟩
  refine mem_resolve.mpr ⟨hc, hlive, hkind, ?_⟩
  unfold ListedBy at hl
  cases t with
  | single pid => rw [hkind] at hl; exact hl
  | member f pid => rw [hkind] at hl; exact hl.2

/-- The other kind is that of single configurations, for a member that is listed by its pid. -/
theorem ListedBy.of_kind_ne (hl : t.ListedBy c) (hne : c.kind ≠ t.kind) :
    c.kind = .single ∧ t.kind = .factory ∧ t.pid ∈ c.service.pids := by
  unfold ListedBy at hl
  cases hk : c.kind with
  | single =>
    rw [hk] at hl hne
    refine ⟨rfl, ?_, hl⟩
    cases t with
    | single pid => exact absurd rfl hne
    | member f pid => rfl
  | factory =>
    rw [hk] at hl hne
    exact absurd hl.1.symm hne

end Target

namespace Record

variable {r : Record} {c : Consumer} {f : String}

theorem pid_target (r : Record) : r.target.pid = r.pid := by
  unfold target Target.of
  cases r.factoryPid <;> rfl

theorem kind_target_eq_factory : r.target.kind = .factory ↔ r.factoryPid ≠ none := by
  unfold target Target.of
  cases r.factoryPid <;> simp [Target.kind]

theorem listedBy_of_pid (hk : c.kind = .single) (hp : r.pid ∈ c.service.pids) :
    r.target.ListedBy c := by
  unfold Target.ListedBy
  rw [hk]
  exact r.pid_target ▸ hp

theorem listedBy_of_factory (hk : c.kind = .factory) (hf : r.factoryPid = some f)
    (hp : f ∈ c.service.pids) : r.target.ListedBy c := by
  unfold Target.ListedBy target
  rw [hk, hf]
  exact ⟨rfl, hp⟩

end Record

namespace View

variable {v v' v'' : View}

/-- A record is there, and a consumer is registered that lists it. -/
structure Reaches (v : View) (h : Handle) (c : Consumer) : Prop where
  known : h < v.records.length
  registered : c ∈ v.directory.consumers
  listed : (v.record h).target.ListedBy c

/-- Nothing is taken back: records stay what they are, and consumers stay registered. -/
structure Onward (v v' : View) : Prop where
  length : v.records.length ≤ v'.records.length
  target : ∀ h < v.records.length, (v'.record h).target = (v.record h).target
  deleted : ∀ h, (v.record h).deleted = true → (v'.record h).deleted = true
  consumers : ∀ c ∈ v.directory.consumers, c ∈ v'.directory.consumers

theorem Interlude.onward {greeted : Option Consumer} (hi : v.Interlude greeted v') :
    v.Onward v' :=
  ⟨hi.length, hi.target, hi.deleted, hi.directory.consumers⟩

theorem Steady.onward (hst : v.Steady v') : v.Onward v' :=
  ⟨Nat.le_of_eq hst.length.symm, fun h _ => (hst.content h).target,
    fun h hd => (hst.content h).deleted.trans hd, fun _ hc => hst.directory ▸ hc⟩

/-- A callback was made about a record that reaches its consumer, and the record is still for the
same consumers. -/
structure Attends (v : View) (k : Call) (o : Occasion) : Prop where
  reaches : v.Reaches o.record k.consumer
  target : (v.record o.record).target = o.standing.target

theorem Reaches.onward {h : Handle} {c : Consumer} (hr : v.Reaches h c) (ho : v.Onward v') :
    v'.Reaches h c :=
  ⟨Nat.lt_of_lt_of_le hr.known ho.length, ho.consumers c hr.registered,
    ho.target h hr.known ▸ hr.listed⟩

theorem Attends.onward {k : Call} {o : Occasion} (ha : v.Attends k o) (ho : v.Onward v') :
    v'.Attends k o :=
  ⟨ha.reaches.onward ho, (ho.target _ ha.reaches.known).trans ha.target⟩

end View

/-- A task speaks of what is there, and if it is for one consumer alone, of records that reach
the consumer. -/
structure Task.Aimed (v : View) (t : Task) : Prop where
  refers : t.Refers v
  reaches : ∀ c, t.consumer? = some c → ∀ m ∈ t.snapshots, v.Reaches m.record c

namespace Task

variable {t : Task} {v v' : View}

theorem Aimed.onward (ht : t.Aimed v) (ho : v.Onward v') : t.Aimed v' :=
  ⟨ht.refers.mono ho.length ho.deleted, fun c hc m hm => (ht.reaches c hc m hm).onward ho⟩

/-- What a task brings reaches the consumer that it is brought to. -/
theorem Brings.reaches {h : Handle} {c : Consumer} {g : Nat} {p : Properties}
    (hb : t.Brings v h c g p) (ht : t.Aimed v) : v.Reaches h c := by
  cases t with
  | deliver =>
    obtain ⟨rfl, rfl, rfl, hc, -⟩ := hb
    exact ⟨ht.refers.captured _ List.mem_cons_self, (Target.mem_resolve.mp hc).1,
      Target.listedBy_of_mem_resolve hc⟩
  | relocate =>
    obtain ⟨rfl, -, -, hc, -⟩ := hb
    exact ⟨ht.refers.relocated _ _ rfl, (Target.mem_resolve.mp hc).1,
      Target.listedBy_of_mem_resolve hc⟩
  | attach =>
    obtain ⟨rfl, rfl, -⟩ := hb
    exact ht.reaches _ rfl _ (Option.mem_toList.mpr rfl)
  | attachFactory =>
    obtain ⟨rfl, hm, -⟩ := hb
    exact ht.reaches _ rfl _ hm
  | retract => exact hb.elim

end Task

namespace View

/-- Whatever was disclosed since the given callbacks has reached its consumer, and whatever waits
is aimed well. -/
structure Attended (old : List Call) (v : View) : Prop where
  tasks : ∀ t ∈ v.waiting, t.Aimed v
  made : ∃ made, v.calls = old ++ made ∧
    ∀ k ∈ made, k.Discloses → ∀ o, k.occasion = some o → v.Attends k o

variable {old : List Call} {v v' : View} {t : Task}

/-- A step that makes some callbacks and queues nothing. -/
theorem Attended.next (ha : v.Attended old) (ho : v.Onward v')
    (hw : ∀ t ∈ v'.waiting, t ∈ v.waiting) {new : List Call} (hn : v'.calls = v.calls ++ new)
    (hnew : ∀ k ∈ new, k.Discloses → ∀ o, k.occasion = some o → v.Attends k o) :
    v'.Attended old := by
  obtain ⟨made, hm, hmade⟩ := ha.made
  refine ⟨fun t ht => (ha.tasks t (hw t ht)).onward ho, made ++ new,
    by rw [hn, hm, List.append_assoc], fun k hk hd o hocc => ?_⟩
  rcases List.mem_append.mp hk with hk | hk
  · exact (hmade k hk hd o hocc).onward ho
  · exact (hnew k hk hd o hocc).onward ho

/-- A step that makes no callback; what it queues is aimed well. -/
theorem Attended.silent (ha : v.Attended old) (ho : v.Onward v') (hc : v'.calls = v.calls)
    (hw : ∀ t ∈ v'.waiting, t ∈ v.waiting ∨ t.Aimed v') : v'.Attended old := by
  obtain ⟨made, hm, hmade⟩ := ha.made
  refine ⟨fun t ht => ?_, made, hc.trans hm, fun k hk hd o hocc => ?_⟩
  · rcases hw t ht with hold | hnew
    · exact (ha.tasks t hold).onward ho
    · exact hnew
  · exact (hmade k hk hd o hocc).onward ho

end View

/-- An effect that hands something over hands it to whom the record reaches. -/
theorem TaskEffect.attended {old : List Call} {t : Task} {v v' : View} (hd : TaskEffect t v v')
    (ht : t.Aimed v) (ha : v.Attended old) : v'.Attended old := by
  have hst := hd.steady
  have hw : ∀ t' ∈ v'.waiting, t' ∈ v.waiting := fun t' ht' => hst.waiting ▸ ht'
  cases hd with
  | bind | advance => exact ha.silent hst.onward rfl fun t' ht' => Or.inl (hw t' ht')
  | strike _ filing =>
    obtain ⟨rosters, rfl⟩ := filing.exists_rosters
    exact ha.silent hst.onward rfl fun t' ht' => Or.inl (hw t' ht')
  | serve sees brings =>
    refine ha.next hst.onward hw rfl fun k hk _ o ho => ?_
    obtain ⟨m, -, rfl⟩ := Option.map_eq_some_iff.mp (Option.mem_toList.mp hk)
    cases ho
    exact ⟨brings.reaches ht, rfl⟩
  | revoke | retract | greetEmpty =>
    refine ha.next hst.onward hw rfl fun k hk hdis => absurd hdis ?_
    refine View.not_discloses_hear (fun o' ho => ?_) hk
    cases ho
    rfl
  | greet =>
    refine ha.next hst.onward hw rfl fun k hk hdis => absurd hdis ?_
    exact View.not_discloses_hear (fun o' ho => by cases ho) hk

theorem TaskEffects.attended {old : List Call} {t : Task} {v v' : View} (hd : TaskEffects t v v')
    (ht : t.Aimed v) (ha : v.Attended old) : v'.Attended old := by
  refine (hd.keep (K := fun u => t.Aimed u ∧ u.Attended old) (fun u u' heffect h => ?_)
    ⟨ht, ha⟩).2
  exact ⟨h.1.onward heffect.steady.onward, heffect.attended h.1 h.2⟩

namespace View

variable {old : List Call} {v v' : View} {t : Task}

/-- Neither the line nor the cache counts for what is there. -/
theorem onward_of_eq (hd : v'.directory = v.directory) (hr : v'.records = v.records) :
    v.Onward v' := by
  have hrec : ∀ h, v'.record h = v.record h := by
    intro h
    unfold record
    rw [hr]
  exact ⟨Nat.le_of_eq (by rw [hr]), fun h _ => by rw [hrec], fun h hdel => by rw [hrec, hdel],
    fun _ hc => hd ▸ hc⟩

theorem Work.attended (hw : Work v v') (ha : v.Attended old) : v'.Attended old := by
  cases hw with
  | @work t rest waiting effects =>
    have ho : v.Onward { v with waiting := rest } := onward_of_eq rfl rfl
    have hpopped : ({ v with waiting := rest } : View).Attended old :=
      ha.silent ho rfl fun t' ht' => Or.inl (waiting ▸ List.mem_cons_of_mem t ht')
    exact effects.attended ((ha.tasks t (waiting ▸ List.mem_cons_self)).onward ho) hpopped

/-- An interlude that greets nobody queues no first delivery. -/
theorem Attended.interlude (ha : v.Attended old) (hi : v.Interlude none v') :
    v'.Attended old := by
  refine ha.silent hi.onward hi.calls fun t ht => ?_
  rcases hi.tasks t ht with hold | ⟨href, -, hnone, -⟩
  · exact Or.inl hold
  · exact Or.inr ⟨href, fun c hc => by cases hnone c hc⟩

theorem Attended.enqueue (ha : v.Attended old) (ht : t.Aimed v) :
    (v.enqueue t).Attended old := by
  rw [enqueue_eq]
  refine ha.silent (onward_of_eq rfl rfl) rfl fun t' ht' => ?_
  dsimp only at ht'
  split at ht'
  · rcases List.mem_append.mp ht' with hold | hnew
    · exact Or.inl hold
    · rw [List.mem_singleton.mp hnew]
      exact Or.inr (ht.onward (onward_of_eq rfl rfl))
  · exact Or.inl ht'

/-- The greeting of a registered consumer under one of its identities is aimed well: what it has
captured was found under the identity. -/
theorem Attended.greeting (ha : v.Attended old) (hf : v.Filed) {c : Consumer} {identity : String}
    (hg : Greeting c identity v v') (hc : c ∈ v.directory.consumers)
    (hid : identity ∈ c.service.pids) : v'.Attended old := by
  cases hg with
  | single kind =>
    refine ha.enqueue ⟨⟨fun m hm => ?_, nofun, nofun⟩, fun c' hc' m hm => ?_⟩
    all_goals obtain ⟨h, hh, rfl⟩ := Option.map_eq_some_iff.mp (Option.mem_toList.mp hm)
    · exact (hf.held _ h hh).1
    · cases hc'
      obtain ⟨hlt, hpid, -⟩ := hf.held _ h hh
      exact ⟨hlt, hc, Record.listedBy_of_pid kind (hpid.symm ▸ hid)⟩
  | members kind sound =>
    refine ha.enqueue ⟨⟨fun m hm => ?_, nofun, nofun⟩, fun c' hc' m hm => ?_⟩
    all_goals obtain ⟨pid, h, hh, rfl, hfactory⟩ := sound m hm
    · exact (hf.held pid h hh).1
    · cases hc'
      exact ⟨(hf.held pid h hh).1, hc, Record.listedBy_of_factory kind hfactory hid⟩
  | unlisted => exact ha

/-- So is the greeting under all identities. -/
theorem Attended.greetings {admits : Record → Prop} {c : Consumer} {identities : List String}
    (ha : v.Attended old) (hf : v.Filed) (hg : Greetings admits c identities v v')
    (hc : c ∈ v.directory.consumers) (hsub : ∀ i ∈ identities, i ∈ c.service.pids) :
    v'.Attended old := by
  induction hg with
  | done => exact ha
  | @next v v₁ v₂ v₃ identity rest hl hgreet _ ih =>
    have hf₁ := hl.filed hf
    have hi : v.Interlude none v₁ := hl.extends.interlude
    have hc₁ := hi.directory.consumers c hc
    refine ih ((ha.interlude hi).greeting hf₁ hgreet hc₁ (hsub _ List.mem_cons_self))
      (hgreet.filed hf₁) ((hgreet.interlude hf₁).directory.consumers c hc₁)
      fun i hmem => hsub i (List.mem_cons_of_mem _ hmem)

/-- **Each step discloses records to those only that list them**, if no task is submitted and
only registered consumers are announced. -/
theorem Deal.attended {admits : Record → Prop} {a : Action} (hd : Deal admits a v v')
    (hf : v.Filed) (hsub : ∀ t, a ≠ .submit t)
    (hreg : ∀ c, a = .consumerRegistered c → c ∈ v.directory.consumers)
    (haround : ∀ action, a = .around action →
      ∀ c ∈ v.directory.consumers, c ∈ v'.directory.consumers)
    (ha : v.Attended old) : v'.Attended old := by
  cases hd with
  | nothing => exact ha
  | call _ lookups amended =>
    have hlooked := ha.interlude lookups.extends.interlude
    rcases amended with rfl | amended
    · exact hlooked
    · exact hlooked.interlude (amended.interlude (lookups.filed hf))
  | register greetings => exact ha.greetings hf greetings (hreg _ rfl) fun _ hi => hi
  | withdraw forgotten =>
    exact ha.interlude (interlude_of_steps (fun _ _ h => h.interlude) forgotten)
  | uninstall released =>
    exact ha.interlude (interlude_of_steps (fun _ _ h => h.interlude) released)
  | submit => exact absurd rfl (hsub _)
  | around =>
    exact ha.silent ⟨Nat.le_refl _, fun _ _ => rfl, fun _ hd => hd, haround _ rfl⟩ rfl
      fun _ ht => Or.inl ht
  | extend => exact ha.silent (onward_of_eq rfl rfl) rfl fun _ ht => Or.inl ht
  | work hw => exact hw.attended ha
  | stop works =>
    have hclosed : ({ v with accepting := false } : View).Attended old :=
      ha.silent (onward_of_eq rfl rfl) rfl fun _ ht => Or.inl ht
    have hdone := keep_of_steps (K := View.Attended old) (fun _ _ hw h => hw.attended h) works
      hclosed
    exact hdone.silent (onward_of_eq rfl rfl) rfl fun _ ht => Or.inl ht

end View
/-- Around a manager consumers are only added. -/
theorem World.consumers_step (w : World) (action : WorldAction) {c : Consumer}
    (hc : c ∈ w.directory.consumers) : c ∈ (w.step action).directory.consumers := by
  have hprovide : ∀ location, (w.directory.provide location).2.consumers = w.directory.consumers :=
    fun location => (w.directory.provide_rest location).1
  cases action with
  | install location => exact hprovide location ▸ hc
  | setState location state => exact hprovide location ▸ hc
  | uninstall location =>
    simp only [World.step, Directory.uninstall]
    split <;> exact hc
  | addConsumer kind location pids ranking =>
    rw [World.step, w.directory.registerConsumer_snd]
    exact List.mem_append_left _ hc
  | addListener location => exact hprovide location ▸ hc
  | withdraw id =>
    simp only [World.step]
    split <;> exact hc
  | behave id reply =>
    simp only [World.step]
    split <;> exact hc
  | backend name change => exact hc

namespace Session

variable {s : Session} {actions : List Action} {k : Call}

/-- The manager is told only of consumers that are registered. -/
def AnnouncesRegistered (s : Session) : List Action → Prop
  | [] => True
  | a :: rest =>
    (∀ c, a = .consumerRegistered c → c ∈ s.directory.consumers) ∧
      (s.step a).2.AnnouncesRegistered rest

theorem AnnouncesRegistered.of_append {past rest : List Action}
    (hreg : s.AnnouncesRegistered (past ++ rest)) : s.AnnouncesRegistered past := by
  induction past generalizing s with
  | nil => exact trivial
  | cons a past ih => exact ⟨hreg.1, ih hreg.2⟩

theorem run_attended {old : List Call} (hf : s.view.Filed) (hsub : ∀ t, .submit t ∉ actions)
    (hreg : s.AnnouncesRegistered actions) (ha : s.view.Attended old) :
    (s.run actions).view.Attended old := by
  induction actions generalizing s with
  | nil => exact ha
  | cons a rest ih =>
    have hdeal := step_deal hf a
    refine ih (hdeal.filed hf) (fun t ht => hsub t (List.mem_cons_of_mem a ht)) hreg.2 ?_
    refine hdeal.attended hf (fun t he => ?_) hreg.1 (fun action he => ?_) ha
    · exact hsub t (he ▸ List.mem_cons_self)
    · subst he
      exact fun c hc => s.toWorld.consumers_step action hc

/-- Whatever discloses something leaves the directory as it is. -/
theorem directory_of_discloses (hf : s.view.Filed) {a : Action}
    (hk : k ∈ (s.step a).2.calls.drop s.calls.length) (hd : k.Discloses) :
    (s.step a).2.directory = s.directory := by
  obtain ⟨new, hn, hc⟩ := (step_deal hf a).disclosesChecked
  have hcalls : (s.step a).2.calls = s.calls ++ new := hn
  rw [hcalls, List.drop_left] at hk
  obtain ⟨-, v, -, hl, hr, -⟩ := hc k hk hd
  exact hr.directory.trans hl.directory

/-- What a callback of a run has disclosed has reached its consumer, then and ever after. -/
theorem run_attends {old : List Call} (hattended : (s.run actions).view.Attended old)
    (hk : k ∈ (s.run actions).calls.drop old.length) (hd : k.Discloses) {o : Occasion}
    (ho : k.occasion = some o) : (s.run actions).view.Attends k o := by
  obtain ⟨made, hm, hmade⟩ := hattended.made
  have hcalls : (s.run actions).calls = old ++ made := hm
  rw [hcalls, List.drop_left] at hk
  exact hmade k hk hd o ho

/-- **Whom the properties of a record reach.**  Without submitted tasks, and if only registered
consumers are announced, a callback that discloses something of a record goes to a target that
the record has at that moment, exactly if the consumer is of the kind of those targets; and then
it stays one, for the updates and the deletion still to come, as long as it is live.  A consumer of
the other kind is one of single configurations that lists the pid of a member of a factory. -/
theorem recipients_targeted_iff {w : World} {settings : Settings} (hs : start w settings = .ok s)
    (hsub : ∀ t, .submit t ∉ actions) (hreg : s.AnnouncesRegistered actions)
    (hk : k ∈ (s.run actions).calls.drop s.calls.length) (hd : k.Discloses) :
    ∃ before a after o, actions = before ++ a :: after ∧
      (s.run before).Entitled (s.run (before ++ [a])) k o ∧
      (k.consumer ∈ o.standing.target.resolve (s.run before).directory ↔
        k.consumer.kind = o.standing.target.kind) ∧
      (∀ later, before ++ [a] <+: later → later <+: actions →
        (s.run later).directory.isLive k.consumer.service = true →
          (k.consumer ∈ ((s.run later).record o.record).target.resolve (s.run later).directory ↔
            k.consumer.kind = o.standing.target.kind)) ∧
      (k.consumer.kind ≠ o.standing.target.kind → o.standing.factoryPid ≠ none ∧
        k.consumer ∈ (Target.single o.standing.pid).resolve (s.run before).directory) := by
  have hf := start_filed hs
  obtain ⟨before, a, after, o, rfl, hent⟩ := run_entitled hf actions k hk hd
  have hstarted : s.view.Attended s.calls := by
    refine ⟨fun t ht => ?_, [], (List.append_nil _).symm, fun k hk => ?_⟩
    · rw [start_view hs] at ht
      exact absurd ht List.not_mem_nil
    · exact absurd hk List.not_mem_nil
  have hattends : ∀ later, before ++ [a] <+: later → later <+: before ++ a :: after →
      (s.run later).view.Attends k o := by
    intro later hfrom hto
    have hattended : (s.run later).view.Attended s.calls := by
      refine run_attended hf (fun t ht => hsub t (hto.subset ht)) ?_ hstarted
      obtain ⟨rest, hrest⟩ := hto
      rw [← hrest] at hreg
      exact hreg.of_append
    refine run_attends hattended ?_ hd hent.occasion
    -- the callback is among those since the start, and stays there
    obtain ⟨old, hold⟩ := run_calls hf before
    obtain ⟨rest, rfl⟩ := hfrom
    obtain ⟨more, hmore⟩ := run_calls (run_filed hf (before ++ [a])) rest
    have hmade := hent.made
    rw [hold, List.length_append] at hmade
    have hle : s.calls.length ≤ s.calls.length + old.length := Nat.le_add_right _ _
    rw [s.run_append (before ++ [a]) rest, hmore, List.drop_append]
    exact List.mem_append_left _ (List.drop_subset_drop_left _ hle hmade)
  have hnow := hattends (before ++ [a]) List.prefix_rfl ⟨after, by simp⟩
  have hlisted := hnow.target ▸ hnow.reaches.listed
  have hregistered : k.consumer ∈ (s.run before).directory.consumers := by
    have hmade := hent.made
    have hstep := hnow.reaches.registered
    rw [run_concat] at hmade hstep
    exact directory_of_discloses (run_filed hf before) hmade hd ▸ hstep
  refine ⟨before, a, after, o, rfl, hent, hlisted.mem_resolve_iff hregistered hent.live, ?_, ?_⟩
  · intro later hfrom hto hlive
    have hlater := hattends later hfrom hto
    rw [← hlater.target]
    exact hlater.reaches.listed.mem_resolve_iff hlater.reaches.registered hlive
  · intro hne
    obtain ⟨hsingle, hmember, hpid⟩ := hlisted.of_kind_ne hne
    rw [Record.pid_target] at hpid
    exact ⟨Record.kind_target_eq_factory.mp hmember,
      Target.mem_resolve.mpr ⟨hregistered, hent.live, hsingle, hpid⟩⟩

/-- A consumer of single configurations that lists the pid of a member. -/
def outsider : Consumer where
  service := { id := 1, pids := ["member"], location := "here", provider := 0 }
  kind := .single

/-- The consumer is attached when the member has properties, which are then changed and deleted. -/
def misdirected : List Action :=
  [.createMember "factory" none ["member"], .update "member" .empty, .runUpdate,
    .around (.addConsumer .single "here" ["member"] 0), .consumerRegistered outsider, .runUpdate,
    .update "member" .empty, .runUpdate, .delete "member", .runUpdate]

theorem announcesRegistered_misdirected {s : Session} (hs : start {} {} = .ok s) :
    s.AnnouncesRegistered misdirected := by
  cases hs
  refine ⟨nofun, nofun, nofun, nofun, fun c hc => ?_, nofun, nofun, nofun, nofun, nofun, trivial⟩
  cases hc
  decide

/-- The consumer is handed the properties once, and hears no more of the member. -/
theorem calls_misdirected {s : Session} (hs : start {} {} = .ok s) :
    ∃ k o, (s.run misdirected).calls.drop s.calls.length = [k] ∧
      (s.run (misdirected.take 6)).calls.drop s.calls.length = [k] ∧
      (s.run (misdirected.take 5)).calls = s.calls ∧
      k.consumer = outsider ∧ k.occasion = some o ∧ k.message.properties? ≠ none ∧
      o.standing.pid = "member" ∧ o.standing.factoryPid = some "factory" := by
  cases hs
  exact ⟨_, _, rfl, rfl, rfl, rfl, rfl, Option.some_ne_none _, rfl, rfl⟩

/-- What is said of a callback holds of the one to the consumer that is no target. -/
theorem recipients_targeted_iff_misdirected :
    ∃ s k before a after o, start {} {} = .ok s ∧ (∀ t, .submit t ∉ misdirected) ∧
      s.AnnouncesRegistered misdirected ∧
      k ∈ (s.run misdirected).calls.drop s.calls.length ∧ k.Discloses ∧
      misdirected = before ++ a :: after ∧
      (s.run before).Entitled (s.run (before ++ [a])) k o ∧
      k.consumer.kind ≠ o.standing.target.kind ∧
      k.consumer ∉ o.standing.target.resolve (s.run before).directory ∧
      k.consumer ∈ (Target.single o.standing.pid).resolve (s.run before).directory := by
  obtain ⟨s, hs⟩ : ∃ s, start {} {} = .ok s := ⟨_, rfl⟩
  have hsub : ∀ t, .submit t ∉ misdirected := by simp [misdirected]
  have hreg := announcesRegistered_misdirected hs
  obtain ⟨k, o, hcalls, -, -, hc, ho, hp, -, hfactory⟩ := calls_misdirected hs
  have hk : k ∈ (s.run misdirected).calls.drop s.calls.length := hcalls ▸ List.mem_cons_self
  have hd : k.Discloses := Or.inl hp
  obtain ⟨before, a, after, o', he, hent, hiff, -, hother⟩ :=
    recipients_targeted_iff hs hsub hreg hk hd
  obtain rfl : o = o' := Option.some.inj (ho.symm.trans hent.occasion)
  have hkind : k.consumer.kind ≠ o.standing.target.kind := by
    rw [Record.kind_target_eq_factory.mpr (hfactory ▸ Option.some_ne_none _), hc]
    decide
  exact ⟨s, k, before, a, after, o, hs, hsub, hreg, hk, hd, he, hent, hkind,
    fun hmem => hkind (hiff.mp hmem), (hother hkind).2⟩

/-- A consumer that is no target of a member is handed its properties when it is attached, and
hears of neither the update nor the deletion that follow. -/
theorem recipient_untargeted_misdirected :
    ∃ s k o, start {} {} = .ok s ∧ (∀ t, .submit t ∉ misdirected) ∧
      s.AnnouncesRegistered misdirected ∧
      (s.run (misdirected.take 5)).calls = s.calls ∧
      (s.run (misdirected.take 6)).calls.drop s.calls.length = [k] ∧
      k.occasion = some o ∧ k.message.properties? ≠ none ∧
      k.consumer ∉ o.standing.target.resolve (s.run (misdirected.take 5)).directory ∧
      (s.run misdirected).calls.drop s.calls.length = [k] := by
  obtain ⟨s, hs⟩ : ∃ s, start {} {} = .ok s := ⟨_, rfl⟩
  obtain ⟨k, o, hcalls, hmade, hnone, hc, ho, hp, -, hfactory⟩ := calls_misdirected hs
  refine ⟨s, k, o, hs, by simp [misdirected], announcesRegistered_misdirected hs, hnone, hmade,
    ho, hp, fun hmem => ?_, hcalls⟩
  have hkind := (Target.mem_resolve.mp hmem).2.2.1
  rw [Record.kind_target_eq_factory.mpr (hfactory ▸ Option.some_ne_none _), hc] at hkind
  cases hkind

end Session
end Provisioning
