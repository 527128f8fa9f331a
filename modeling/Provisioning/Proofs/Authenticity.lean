import Provisioning.Proofs.Entries
import Provisioning.Proofs.Fronts

/-! # Whose properties they are

The automatic pids say which configuration properties belong to, and they are set by the manager:
when an update is committed, when a record is loaded, when a dictionary is stored, and again after
every plugin.  Whatever users, plugins and stored dictionaries write under these keys in whatever
spelling, it is neither kept, nor handed to a consumer, nor stored.
-/
namespace Provisioning

open Relation (ReflTransGen)

/-- Properties that carry the automatic pids of a record, and every key once. -/
structure Record.Vouches (r : Record) (p : Properties) : Prop where
  pid : p.get? Properties.pidKey = some (.text r.pid)
  factoryPid : p.get? Properties.factoryPidKey = r.factoryPid.map .text
  single : p.folded.Nodup

namespace Record

variable {r r' : Record} {p q : Properties}

theorem vouches_stamp (r : Record) (p : Properties) : r.Vouches (r.stamp p) :=
  ⟨Properties.get?_stamp_pidKey _ _ _, Properties.get?_stamp_factoryPidKey _ _ _,
    Table.nodup_folded _⟩

theorem Stamped.vouches (h : r.Stamped) (hp : r.properties = some p) : r.Vouches p :=
  h p hp ▸ r.vouches_stamp p

theorem vouches_persisted (r : Record) : r.Vouches r.persisted where
  pid := (get?_persisted (by decide)).trans (Properties.get?_stamp_pidKey _ _ _)
  factoryPid := (get?_persisted (by decide)).trans (Properties.get?_stamp_factoryPidKey _ _ _)
  single := Table.nodup_folded _

/-- The pids are all that counts of the record. -/
theorem Vouches.of_pids (h : r.Vouches p) (hpid : r'.pid = r.pid)
    (hfactory : r'.factoryPid = r.factoryPid) : r'.Vouches p :=
  ⟨hpid ▸ h.pid, hfactory ▸ h.factoryPid, h.single⟩

/-! ### Plugins -/

/-- What a plugin left under the automatic keys is not seen any more. -/
theorem Vouches.restoreIdentity (h : r.Vouches p) (q : Properties) :
    r.Vouches (Pipeline.restoreIdentity p q) := by
  have hpid : (Pipeline.restoreIdentity p q).get? Properties.pidKey = some (.text r.pid) := by
    unfold Pipeline.restoreIdentity
    rw [h.pid, h.factoryPid]
    cases r.factoryPid with
    | none =>
      exact (Table.get?_erase_of_ne _ Properties.lower_pidKey_ne).trans (Table.get?_put_self ..)
    | some f =>
      exact (Table.get?_put_of_ne _ Properties.lower_pidKey_ne _).trans (Table.get?_put_self ..)
  refine ⟨hpid, ?_, Table.nodup_folded _⟩
  unfold Pipeline.restoreIdentity
  rw [h.factoryPid]
  cases r.factoryPid with
  | none => exact Table.get?_erase_self ..
  | some f => exact Table.get?_put_self ..

/-- No sequence of plugins changes whose properties they are. -/
theorem Vouches.plugins (h : r.Vouches p) (plugins : Pipeline) (identity : String)
    (service : Service) : r.Vouches (plugins.run identity service p) := by
  unfold Pipeline.run
  have hrest : ∀ entries : List PluginEntry, ∀ q, r.Vouches q → r.Vouches (entries.foldl
      (fun q e => Pipeline.restoreIdentity p (e.plugin service q).1) q) := by
    intro entries
    induction entries with
    | nil => exact fun _ hq => hq
    | cons e rest ih => exact fun q _ => ih _ (h.restoreIdentity _)
  exact hrest _ p h

end Record

namespace Task

/-- What a task brings belongs to one of the records that it speaks of. -/
theorem Brings.mem_records {t : Task} {v : View} {h : Handle} {c : Consumer} {g : Nat}
    {p : Properties} (hb : t.Brings v h c g p) : h ∈ t.records := by
  cases t with
  | deliver =>
    obtain ⟨rfl, -⟩ := hb
    exact List.mem_singleton_self _
  | relocate =>
    obtain ⟨rfl, -⟩ := hb
    exact List.mem_singleton_self _
  | attach =>
    obtain ⟨-, rfl, -⟩ := hb
    exact List.mem_singleton_self _
  | attachFactory =>
    obtain ⟨-, hm, -⟩ := hb
    exact List.mem_map_of_mem hm
  | retract => exact hb.elim

theorem mem_records_of_snapshot {t : Task} {m : Snapshot} (hm : m ∈ t.snapshots) :
    m.record ∈ t.records := by
  cases t with
  | deliver =>
    obtain rfl := List.mem_singleton.mp hm
    exact List.mem_singleton_self _
  | attach | attachFactory => exact List.mem_map_of_mem hm
  | retract | relocate => exact absurd hm List.not_mem_nil

end Task

namespace View

variable {v v' v'' : View} {t : Task}

/-- A task speaks of records that are there, and what it captured of them carries their pids. -/
structure Attests (v : View) (t : Task) : Prop where
  known : ∀ h ∈ t.records, h < v.records.length
  captured : ∀ m ∈ t.snapshots, ∀ p, m.properties = some p → (v.record m.record).Vouches p

/-- Whatever is kept in records and in waiting tasks carries the pids of its record. -/
structure Authentic (v : View) : Prop where
  kept : ∀ h, (v.record h).Stamped
  waiting : ∀ t ∈ v.waiting, v.Attests t

/-- Properties that are said in a call carry the pids of the record that they are said of. -/
def Endorses (v : View) (k : Call) : Prop :=
  ∀ q, k.message.properties? = some q → ∃ o, k.occasion = some o ∧
    o.record < v.records.length ∧ (v.record o.record).Vouches q

/-- Records are added and stay whose they are. -/
structure Outlives (v v' : View) : Prop where
  length : v.records.length ≤ v'.records.length
  pid : ∀ h < v.records.length, (v'.record h).pid = (v.record h).pid
  factoryPid : ∀ h < v.records.length, (v'.record h).factoryPid = (v.record h).factoryPid

theorem Outlives.refl (v : View) : v.Outlives v := ⟨Nat.le_refl _, fun _ _ => rfl, fun _ _ => rfl⟩

theorem Outlives.of_records (hr : v'.records = v.records) : v.Outlives v' := by
  have hrec : ∀ h, v'.record h = v.record h := by
    intro h
    unfold record
    rw [hr]
  exact ⟨hr ▸ Nat.le_refl _, fun h _ => hrec h ▸ rfl, fun h _ => hrec h ▸ rfl⟩

theorem Outlives.attests (h : v.Outlives v') (ht : v.Attests t) : v'.Attests t where
  known := fun i hi => Nat.lt_of_lt_of_le (ht.known i hi) h.length
  captured := by
    intro m hm p hp
    have hlt := ht.known _ (Task.mem_records_of_snapshot hm)
    exact (ht.captured m hm p hp).of_pids (h.pid _ hlt) (h.factoryPid _ hlt)

theorem Outlives.endorses (h : v.Outlives v') {k : Call} (hk : v.Endorses k) : v'.Endorses k := by
  intro q hq
  obtain ⟨o, ho, hlt, hv⟩ := hk q hq
  exact ⟨o, ho, Nat.lt_of_lt_of_le hlt h.length, hv.of_pids (h.pid _ hlt) (h.factoryPid _ hlt)⟩

theorem Outlives.trans (h : v.Outlives v') (h' : v'.Outlives v'') : v.Outlives v'' where
  length := Nat.le_trans h.length h'.length
  pid := fun i hi => (h'.pid i (Nat.lt_of_lt_of_le hi h.length)).trans (h.pid i hi)
  factoryPid := fun i hi =>
    (h'.factoryPid i (Nat.lt_of_lt_of_le hi h.length)).trans (h.factoryPid i hi)

theorem Steady.outlives (h : v.Steady v') : v.Outlives v' :=
  ⟨Nat.le_of_eq h.length.symm, fun i _ => (h.content i).pid, fun i _ => (h.content i).factoryPid⟩

theorem outlives_change {f : Record → Record} (hc : ∀ r : Record, r.SameContent (f r))
    (h : Handle) : v.Outlives (v.change h f) :=
  ⟨Nat.le_of_eq (v.length_change h f).symm,
    fun i _ => v.record_change_of_eq (fun r => (hc r).pid) h i,
    fun i _ => v.record_change_of_eq (fun r => (hc r).factoryPid) h i⟩

/-- Records stay whose they are, and whatever is said meanwhile carries the pids of its record. -/
structure Upholds (v v' : View) : Prop where
  outlives : v.Outlives v'
  calls : ∃ new, v'.calls = v.calls ++ new ∧ ∀ k ∈ new, v'.Endorses k

theorem Upholds.of_silent (h : v.Outlives v') (hc : v'.calls = v.calls) : v.Upholds v' :=
  ⟨h, [], by rw [hc, List.append_nil], fun _ hk => absurd hk List.not_mem_nil⟩

theorem Upholds.refl (v : View) : v.Upholds v := .of_silent (.refl v) rfl

theorem Upholds.trans (h : v.Upholds v') (h' : v'.Upholds v'') : v.Upholds v'' := by
  refine ⟨h.outlives.trans h'.outlives, ?_⟩
  obtain ⟨new, hnew, hall⟩ := h.calls
  obtain ⟨new', hnew', hall'⟩ := h'.calls
  refine ⟨new ++ new', by rw [hnew', hnew, List.append_assoc], fun k hk => ?_⟩
  rcases List.mem_append.mp hk with hk | hk
  · exact h'.outlives.endorses (hall k hk)
  · exact hall' k hk

/-- Nothing else of a view is looked at. -/
theorem Upholds.of_parts {u u' : View} (h : v.Upholds v') (hr : u.records = v.records)
    (hc : u.calls = v.calls) (hr' : u'.records = v'.records) (hc' : u'.calls = v'.calls) :
    u.Upholds u' := by
  have hbefore : u.Upholds v := .of_silent (.of_records hr.symm) hc.symm
  have hafter : v'.Upholds u' := .of_silent (.of_records hr') hc'
  exact (hbefore.trans h).trans hafter

theorem Authentic.of_parts (hv : v.Authentic) (hr : v'.records = v.records)
    (hw : v'.waiting = v.waiting) : v'.Authentic := by
  refine ⟨fun h => ?_, fun t ht => (Outlives.of_records hr).attests (hv.waiting t (hw ▸ ht))⟩
  have hkept := hv.kept h
  unfold record at hkept ⊢
  exact hr ▸ hkept

/-! ### Work -/

/-- A callback that says of a record nothing that does not carry its pids. -/
theorem upholds_hear {target : Target} {c : Consumer} {p : Option Properties}
    {o : Option Occasion} (hp : ∀ q, p = some q → ∃ o', o = some o' ∧
      o'.record < v.records.length ∧ (v.record o'.record).Vouches q) :
    v.Upholds (v.hear target c p o) := by
  refine ⟨(steady_hear target c p o).outlives, _, rfl, fun k hk => ?_⟩
  obtain ⟨m, hm, rfl⟩ := Option.map_eq_some_iff.mp (Option.mem_toList.mp hk)
  refine fun q hq => hp q ?_
  rw [← hq]
  exact (target.properties?_call hm).symm

end View

/-- Whatever an effect hands over carries the pids of its record. -/
theorem TaskEffect.upholds {t : Task} {v v' : View} (hd : TaskEffect t v v')
    (hkept : ∀ h, (v.record h).Stamped) (ht : v.Attests t) : v.Upholds v' := by
  have hmark : ∀ {u : View} {h f}, v.Upholds u → (∀ r : Record, r.SameContent (f r)) →
      v.Upholds (u.change h f) :=
    fun hu hc => hu.trans (.of_silent (View.outlives_change hc _) rfl)
  have hsilent : ∀ {target : Target} {c : Consumer} {o : Option Occasion},
      v.Upholds (v.hear target c none o) := View.upholds_hear fun q hq => by cases hq
  cases hd with
  | bind => exact hmark (.refl v) fun r => r.sameContent_bind _
  | advance => exact hmark (.refl v) fun r => r.sameContent_advance _
  | strike _ filing =>
    obtain ⟨rosters, rfl⟩ := filing.exists_rosters
    exact .of_silent (.of_records rfl) rfl
  | revoke => exact hmark hsilent fun r => r.sameContent_forget _
  | retract | greet | greetEmpty => exact hsilent
  | @serve _ _ h c g p sees brings =>
    refine hmark (View.upholds_hear fun q hq => ⟨_, rfl, ht.known h brings.mem_records, ?_⟩)
      fun r => r.sameContent_note _ _
    -- the properties were captured before, or they are what the record has
    obtain rfl := Option.some.inj hq
    refine Record.Vouches.plugins ?_ _ _ _
    rcases brings.snapshot_or with ⟨hm, -⟩ | ⟨-, hp⟩
    · exact ht.captured _ hm p rfl
    · exact (hkept h).vouches hp

theorem TaskEffects.upholds {t : Task} {v v' : View} (hd : TaskEffects t v v')
    (hkept : ∀ h, (v.record h).Stamped) (ht : v.Attests t) : v.Upholds v' := by
  induction hd with
  | refl => exact .refl v
  | tail hfirst hlast ih =>
    have hsteady := TaskEffects.steady hfirst
    exact ih.trans (hlast.upholds (fun h => (hkept h).of_content (hsteady.content h))
      (hsteady.outlives.attests ht))

namespace View

variable {v v' : View}

theorem Work.upholds (hw : Work v v') (hv : v.Authentic) : v'.Authentic ∧ v.Upholds v' := by
  cases hw with
  | @work t rest waiting effects =>
    have hpop : v.Outlives { v with waiting := rest } := .of_records rfl
    have hpopped := hpop.attests (hv.waiting t (waiting ▸ List.mem_cons_self))
    have hsteady := effects.steady
    have hupholds : v.Upholds v' := (effects.upholds hv.kept hpopped).of_parts rfl rfl rfl rfl
    refine ⟨⟨fun h => (hv.kept h).of_content (hsteady.content h), fun t' ht' => ?_⟩, hupholds⟩
    rw [hsteady.waiting] at ht'
    exact hupholds.outlives.attests (hv.waiting t' (waiting ▸ List.mem_cons_of_mem t ht'))

theorem works_upholds (hw : ReflTransGen Work v v') (hv : v.Authentic) :
    v'.Authentic ∧ v.Upholds v' := by
  induction hw with
  | refl => exact ⟨hv, .refl v⟩
  | tail _ hlast ih =>
    obtain ⟨hv₁, hupholds⟩ := ih
    exact (hlast.upholds hv₁).imp_right hupholds.trans

end View

namespace Session

variable {s : Session}

/-! ### Steps -/

theorem Follows.outlives {s' : Session} (h : s.Follows s') : s.view.Outlives s'.view :=
  ⟨h.length, h.pid, h.factoryPid⟩

/-- Properties carry the pids of their records, in a session in which tasks can run. -/
structure Authentic (s : Session) : Prop where
  tidy : s.Tidy
  kept : ∀ h, (s.record h).Stamped
  waiting : ∀ t ∈ s.view.waiting, s.view.Attests t

theorem Authentic.view (h : s.Authentic) : s.view.Authentic := ⟨h.kept, h.waiting⟩

/-- What waits at the end is run like any other work. -/
theorem Authentic.shutdown (h : s.Authentic) :
    s.shutdown.Authentic ∧ s.view.Upholds s.shutdown.view := by
  rcases s.shutdown_view with he | hview
  · rw [he]
    exact ⟨h, .refl _⟩
  have hclosed : ({ s with updates := s.updates.close } : Session).view.Authentic :=
    h.view.of_parts rfl rfl
  obtain ⟨hw, hupholds⟩ :=
    View.works_upholds (runUpdates_view _ s.updates.waiting.length) hclosed
  have hend : s.shutdown.view.Authentic := by
    rw [hview]
    exact hw.of_parts rfl rfl
  have hidle : s.shutdown.view.waiting = [] := by
    rw [hview]
    exact drainUpdates_waiting _
  refine ⟨⟨⟨?_, fun t ht => ?_⟩, hend.kept, hend.waiting⟩, ?_⟩
  · rw [hview]
    exact View.filed_of_empty rfl rfl
  · rw [hidle] at ht
    exact absurd ht List.not_mem_nil
  · rw [hview]
    exact hupholds.of_parts rfl rfl rfl rfl

/-- **Identities are genuine.**  Whatever happens to a session: what is kept and what waits carries
the pids of its record, and so does what is handed to consumers meanwhile. -/
theorem Authentic.step (h : s.Authentic) {a : Action} (hsub : ∀ t, a ≠ .submit t) :
    (s.step a).2.Authentic ∧ s.view.Upholds (s.step a).2.view := by
  by_cases hend : a = .shutdown
  · subst hend
    exact h.shutdown
  have hstrokes := step_strokes h.tidy ⟨fun _ => trivial, fun _ => trivial⟩ (within_all hsub hend)
  have htidy := hstrokes.tidy h.tidy
  have houtlives := hstrokes.follows.outlives
  have hkept : ∀ i, ((s.step a).2.record i).Stamped := fun i => hstrokes.stamped (h.kept i)
  rcases (step_deal h.tidy.filed a).front_or h.tidy.filed with hfront | ⟨t, rfl⟩ |
    ⟨-, accepting, w, works, cached, rosters, he⟩
  · refine ⟨⟨htidy, hkept, fun t ht => ?_⟩, .of_silent houtlives hfront.calls⟩
    rcases hfront.tasks t ht with hold | ⟨hshows, -⟩
    · exact houtlives.attests (h.waiting t hold)
    · -- what is captured is what the record has
      refine ⟨fun i hi => (htidy.tasks t ht i hi).1, fun m hm p hp => ?_⟩
      rw [(hshows m hm).2] at hp
      exact (hkept m.record).vouches hp
  · exact absurd rfl (hsub t)
  · have hopen : ({ s.view with accepting } : View).Authentic := h.view.of_parts rfl rfl
    obtain ⟨hw, hupholds⟩ := View.works_upholds works hopen
    have hall : (s.step a).2.view.Authentic := by
      rw [he]
      exact hw.of_parts rfl rfl
    refine ⟨⟨htidy, hkept, hall.waiting⟩, ?_⟩
    rw [he]
    exact hupholds.of_parts rfl rfl rfl rfl

theorem Authentic.run (h : s.Authentic) {actions : List Action} (hsub : ∀ t, .submit t ∉ actions) :
    (s.run actions).Authentic ∧ s.view.Upholds (s.run actions).view := by
  induction actions generalizing s with
  | nil => exact ⟨h, .refl _⟩
  | cons a rest ih =>
    obtain ⟨h₁, hupholds⟩ := h.step (a := a) fun t he => hsub t (he ▸ List.mem_cons_self)
    exact (ih h₁ fun t ht => hsub t (List.mem_cons_of_mem a ht)).imp_right hupholds.trans

/-! ### What is written -/

/-- What may be found under an id of a storage after a step: what a manager stores beside the
configurations, or a dictionary that carries the pids of the record cached under that id. -/
inductive Issued (s : Session) (id : String) (d : Properties) : Prop
  | bindings {pairs : List (String × String)} (place : id = s.bindings.id)
    (content : d = Bindings.encode pairs)
  | roster {r : Roster} (place : id = Roster.idOf r.factoryPid) (content : d = r.dictionary)
  | record {h : Handle} (cached : s.cache.record? id = some h) (vouched : (s.record h).Vouches d)

/-- Whatever a step writes carries the pids of the record that it is written for. -/
theorem Authentic.writes (h : s.Authentic) {a : Action} (hsub : ∀ t, a ≠ .submit t)
    (hback : ∀ name change, a ≠ .around (.backend name change)) {name id : String}
    {d : Properties} (hd : (s.step a).2.storage.held name id = some d) :
    s.storage.held name id = some d ∨ (s.step a).2.Issued id d := by
  have hid : (s.step a).2.bindings.id = s.bindings.id := step_id h.tidy.filed a
  have hfiled := (h.step hsub).1.tidy.filed
  let rule : EntryRule := fun name id d =>
    s.storage.held name id = some d ∨ (s.step a).2.Issued id d
  have hadmits : rule.AdmitsReserved s.bindings.id :=
    ⟨fun name pairs => Or.inr (.bindings hid.symm rfl), fun name r => Or.inr (.roster rfl rfl)⟩
  have henters : (s.step a).2.Enters rule := by
    intro name' pid i r hc hpid hfactory
    obtain ⟨-, hpid', -⟩ := hfiled.held pid i hc
    exact Or.inr (.record hc (r.vouches_persisted.of_pids (hpid'.trans hpid.symm) hfactory.symm))
  have habides : s.Abides rule := ⟨hadmits, fun _ _ _ hd => Or.inl hd⟩
  have hspares := Action.spares_of_ne_backend hback
  exact (habides.step h.tidy.filed hspares henters).obeys name id d hd

end Session

/-- The records that there were before carry their pids. -/
def World.Genuine (w : World) : Prop := ∀ r ∈ w.records, r.Stamped

namespace Session

variable {s : Session}

theorem start_authentic {w : World} (hw : w.Genuine) {settings : Settings}
    (hs : start w settings = .ok s) : s.Authentic := by
  have hidle : s.view.waiting = [] := by rw [start_view hs]
  refine ⟨start_tidy hs, fun h => ?_, fun t ht => ?_⟩
  · have hrecords : s.records = w.records := congrArg View.records (start_view hs)
    unfold record World.record
    rw [hrecords]
    cases hr : w.records[h]? with
    | none => exact fun p hp => by cases hp
    | some r => exact hw r (List.mem_of_getElem? hr)
  · rw [hidle] at ht
    exact absurd ht List.not_mem_nil

/-- A session leaves a world behind in which the next one may start. -/
theorem Authentic.leave (h : s.Authentic) : s.leave.Genuine := by
  have hrecords : s.leave.records = s.shutdown.records := by
    unfold Session.leave
    dsimp only
    split <;> rfl
  intro r hr
  obtain ⟨i, hi⟩ := List.getElem?_of_mem (hrecords ▸ hr)
  have hkept := h.shutdown.1.kept i
  unfold record World.record at hkept
  rw [hi] at hkept
  exact hkept

/-- **Automatic properties cannot be forged.**  Whatever users write, whatever plugins do, and
whatever is found in the storage: properties that a consumer is handed are said of a record and
carry its pid and its factory's, as do those that a record keeps and the dictionaries that are
stored for it. -/
theorem automatic_properties_genuine {w : World} (hw : w.Genuine) {settings : Settings}
    (hs : start w settings = .ok s) {actions : List Action} (hsub : ∀ t, .submit t ∉ actions) :
    (∀ k ∈ (s.run actions).calls.drop s.calls.length, ∀ q, k.message.properties? = some q →
      ∃ o, k.occasion = some o ∧ o.record < (s.run actions).records.length ∧
        ((s.run actions).record o.record).Vouches q) ∧
    (∀ h p, ((s.run actions).record h).properties = some p →
      ((s.run actions).record h).Vouches p) ∧
    ∀ before a after, actions = before ++ a :: after →
      (∀ name change, a ≠ .around (.backend name change)) → ∀ name id d,
        (s.run (before ++ [a])).storage.held name id = some d →
          (s.run before).storage.held name id = some d ∨ (s.run (before ++ [a])).Issued id d := by
  have hstart := start_authentic hw hs
  obtain ⟨hrun, hupholds⟩ := hstart.run hsub
  refine ⟨fun k hk => ?_, fun h p hp => (hrun.kept h).vouches hp, ?_⟩
  · obtain ⟨new, hnew, hall⟩ := hupholds.calls
    have hnew' : (s.run actions).calls = s.calls ++ new := hnew
    rw [hnew', List.drop_left] at hk
    exact hall k hk
  · rintro before a after rfl hback name id d hd
    have hbefore : ∀ t, .submit t ∉ before := fun t ht =>
      hsub t (List.mem_append_left _ ht)
    have ha : ∀ t, a ≠ .submit t := fun t he =>
      hsub t (List.mem_append_right _ (he ▸ List.mem_cons_self))
    rw [run_concat] at hd ⊢
    exact (hstart.run hbefore).1.writes ha hback hd

/-- Whoever updates a configuration writes to the automatic keys, and so does a plugin. -/
def forged : List Action :=
  [.addPlugin 0 none (Edit.script [.set "SERVICE.PID" (.text "plugin"), .remove "service.pid",
      .set "service.FactoryPid" (.text "plugin")]),
    .around (.addConsumer .single "here" ["pid"] 0), .getOrCreate "pid" none,
    .update "pid" ((Table.empty.put "Service.PID" (.text "user")).put "service.factorypid"
      (.text "user")), .runUpdate]

theorem automatic_properties_genuine_forged :
    ∃ s k q o, start {} {} = .ok s ∧ k ∈ (s.run forged).calls.drop s.calls.length ∧
      k.message.properties? = some q ∧ k.occasion = some o ∧
      ((s.run forged).record o.record).Vouches q := by
  obtain ⟨s, hs⟩ : ∃ s, start {} {} = .ok s := ⟨_, rfl⟩
  have hany : ((s.run forged).calls.drop s.calls.length).any
      (fun k => k.message.properties?.isSome) = true := by
    cases hs
    decide +kernel
  obtain ⟨k, hk, hp⟩ := List.any_eq_true.mp hany
  obtain ⟨q, hq⟩ := Option.isSome_iff_exists.mp hp
  have hgenuine : World.Genuine {} := fun r hr => absurd hr List.not_mem_nil
  have hsub : ∀ t, .submit t ∉ forged := by simp [forged]
  obtain ⟨hhanded, -, -⟩ := automatic_properties_genuine hgenuine hs hsub
  obtain ⟨o, ho, -, hv⟩ := hhanded k hk q hq
  exact ⟨s, k, q, o, hs, hk, hq, ho, hv⟩

end Session
end Provisioning
