import Mathlib.Data.List.Induction
import Provisioning.Proofs.Steps

/-! # Who is handed the properties of a record

Four kinds of tasks hand out properties, and each orders its checks in its own way.  They all
come to the same: at the moment of the callback the record is not deleted, the consumer is live,
and the owner that the record has at that moment is one that the consumer may see, or the
location of the consumer itself.  It holds of every callback of every run, whatever was
submitted and in whatever order calls, hooks and work followed one another.
-/
namespace Provisioning

open Relation (ReflTransGen)

/-- Whether a callback hands out properties of a record: the consumer receives some, or the
plugins were given some for it. -/
def Call.Discloses (k : Call) : Prop :=
  k.message.properties? ≠ none ∨ ∃ o, k.occasion = some o ∧ o.given ≠ none

namespace View

variable {v v' v'' : View}

/-- What tasks leave alone from one task to the next. -/
structure KeptByTasks (v v' : View) : Prop where
  length : v'.records.length = v.records.length
  directory : v'.directory = v.directory
  access : v'.access = v.access
  plugins : v'.plugins = v.plugins
  content : ∀ h, (v.record h).SameContent (v'.record h)
  owned : ∀ h o, (v.record h).owner = some o → (v'.record h).owner = some o

theorem KeptByTasks.refl (v : View) : v.KeptByTasks v :=
  ⟨rfl, rfl, rfl, rfl, fun _ => .refl _, fun _ _ h => h⟩

theorem KeptByTasks.trans (h : v.KeptByTasks v') (h' : v'.KeptByTasks v'') : v.KeptByTasks v'' :=
  ⟨h'.length.trans h.length, h'.directory.trans h.directory, h'.access.trans h.access,
    h'.plugins.trans h.plugins,
    fun i => (h.content i).trans (h'.content i), fun i o ho => h'.owned i o (h.owned i o ho)⟩

theorem Steady.keptByTasks (h : v.Steady v') : v.KeptByTasks v' :=
  ⟨h.length, h.directory, h.access, h.plugins, h.content, h.owned⟩

/-- The message of a callback is what the plugins make of the properties given to them. -/
def Handed (v : View) (k : Call) (o : Occasion) : Prop :=
  ∃ p g identity, o.given = some (p, g) ∧
    k.message.properties? = some (v.plugins.run identity k.consumer.service p)

/-- A callback that was made between two views, with what had been checked for it: at some
moment between the two, with the record as it stood then, the consumer could see it. -/
def Checked (v v' : View) (k : Call) : Prop :=
  ∃ o v₁, k.occasion = some o ∧ v.KeptByTasks v₁ ∧ v₁.KeptByTasks v' ∧
    o.standing = v₁.record o.record ∧
    v₁.MaySee o.record k.consumer ∧ v₁.Handed k o

theorem Checked.widen {w w' : View} {k : Call} (hk : Checked v v' k) (h : w.KeptByTasks v)
    (h' : v'.KeptByTasks w') : Checked w w' k := by
  obtain ⟨o, v₁, ho, hl, hr, hst⟩ := hk
  exact ⟨o, v₁, ho, h.trans hl, hr.trans h', hst⟩

/-- Callbacks are only added, and those that disclose something were checked. -/
def DisclosesChecked (v v' : View) : Prop :=
  ∃ new, v'.calls = v.calls ++ new ∧ ∀ k ∈ new, k.Discloses → Checked v v' k

theorem DisclosesChecked.of_calls (h : v'.calls = v.calls) : DisclosesChecked v v' :=
  ⟨[], by rw [h, List.append_nil], fun _ hk => absurd hk List.not_mem_nil⟩

theorem DisclosesChecked.trans (h : DisclosesChecked v v') (h' : DisclosesChecked v' v'')
    (hk : v.KeptByTasks v')
    (hk' : v'.KeptByTasks v'') : DisclosesChecked v v'' := by
  obtain ⟨new, hn, hc⟩ := h
  obtain ⟨new', hn', hc'⟩ := h'
  refine ⟨new ++ new', by rw [hn', hn, List.append_assoc], fun k hm hd => ?_⟩
  -- what was checked on one part of the way was checked on the whole of it
  rcases List.mem_append.mp hm with hm | hm
  · exact (hc k hm hd).widen (.refl v) hk'
  · exact (hc' k hm hd).widen hk (.refl v'')

/-- Nothing is disclosed without properties. -/
theorem not_discloses_hear {t : Target} {c : Consumer} {o : Option Occasion}
    (ho : ∀ o', o = some o' → o'.given = none) {k : Call}
    (hk : k ∈ ((t.call? c none).map fun m => (⟨c, m, o⟩ : Call)).toList) :
    ¬k.Discloses := by
  obtain ⟨m, hm, rfl⟩ := Option.map_eq_some_iff.mp (Option.mem_toList.mp hk)
  rintro (hp | ⟨o', ho', hg⟩)
  · exact hp (t.properties?_call hm)
  · exact hg (ho o' ho')

/-- What a consumer hears without being handed anything. -/
theorem disclosesChecked_hear_none {t : Target} {c : Consumer} {o : Option Occasion}
    (ho : ∀ o', o = some o' → o'.given = none) : DisclosesChecked v (v.hear t c none o) :=
  ⟨_, rfl, fun _ hk hd => absurd hd (not_discloses_hear ho hk)⟩

/-- What a consumer hears that may see the record. -/
theorem disclosesChecked_hear_some {t : Target} {h : Handle} {c : Consumer} {p : Properties}
    {g : Nat}
    {identity : String} (hsee : v.MaySee h c) :
    DisclosesChecked v (v.hear t c (some (v.plugins.run identity c.service p))
      (some ⟨h, v.record h, some (p, g)⟩)) := by
  refine ⟨_, rfl, fun k hk _ => ?_⟩
  obtain ⟨m, hm, rfl⟩ := Option.map_eq_some_iff.mp (Option.mem_toList.mp hk)
  exact ⟨_, v, rfl, .refl v, (steady_hear _ _ _ _).keptByTasks, rfl, hsee, p, g, identity, rfl,
    t.properties?_call hm⟩

end View

/-- **Each effect hands properties only to who may see them.** -/
theorem TaskEffect.disclosesChecked {t : Task} {v v' : View} (hd : TaskEffect t v v') :
    v.DisclosesChecked v' := by
  cases hd with
  | bind | advance => exact .of_calls rfl
  | strike _ filing =>
    obtain ⟨rosters, rfl⟩ := filing.exists_rosters
    exact .of_calls rfl
  | @serve _ _ h c g p sees brings =>
    refine (View.disclosesChecked_hear_some sees).trans (.of_calls rfl)
      (View.steady_hear _ _ _ _).keptByTasks ?_
    exact (View.steady_change (fun r => r.sameContent_note _ _) (fun _ _ ho => ho) h).keptByTasks
  | @revoke _ h c former undeleted target saw unseen =>
    refine (View.disclosesChecked_hear_none ?_).trans (.of_calls rfl)
      (View.steady_hear _ _ _ _).keptByTasks ?_
    · intro o' ho
      cases ho
      rfl
    · exact (View.steady_change (fun r => r.sameContent_forget _) (fun _ _ ho => ho) h).keptByTasks
  | retract | greetEmpty =>
    refine View.disclosesChecked_hear_none ?_
    intro o' ho
    cases ho
    rfl
  | greet =>
    refine View.disclosesChecked_hear_none ?_
    intro o' ho
    cases ho

theorem TaskEffects.disclosesChecked {t : Task} {v v' : View} (hd : TaskEffects t v v') :
    v.DisclosesChecked v' := by
  induction hd with
  | refl => exact .of_calls rfl
  | @tail v₁ v₂ hfirst hlast ih =>
    exact ih.trans hlast.disclosesChecked (TaskEffects.steady hfirst).keptByTasks
      hlast.steady.keptByTasks

namespace View

variable {admits : Record → Prop} {v v' : View}

theorem Work.disclosesChecked (hw : Work v v') : v.DisclosesChecked v' ∧ v.KeptByTasks v' := by
  cases hw with
  | work waiting effects =>
    obtain ⟨new, hn, hc⟩ := effects.disclosesChecked
    have hkept := effects.steady.keptByTasks
    refine ⟨⟨new, hn, fun k hk hd => ?_⟩, hkept.length, hkept.directory, hkept.access,
      hkept.plugins, hkept.content, hkept.owned⟩
    exact (hc k hk hd).widen ⟨rfl, rfl, rfl, rfl, fun _ => .refl _, fun _ _ h => h⟩ (.refl _)

theorem works_disclosesChecked (hw : ReflTransGen Work v v') :
    v.DisclosesChecked v' ∧ v.KeptByTasks v' := by
  induction hw with
  | refl => exact ⟨.of_calls rfl, .refl v⟩
  | tail _ hlast ih =>
    obtain ⟨hd, hk⟩ := hlast.disclosesChecked
    exact ⟨ih.1.trans hd ih.2 hk, ih.2.trans hk⟩

/-- What an action that is no work leaves of the callbacks. -/
theorem Greetings.calls {c : Consumer} {identities : List String}
    (hg : Greetings admits c identities v v') : v'.calls = v.calls := by
  induction hg with
  | done => rfl
  | next hl hgreet _ ih =>
    rw [ih, ← hl.extends.calls]
    cases hgreet with
    | single | members => rw [enqueue_eq]
    | unlisted => rfl

theorem Amendment.calls (ha : Amendment v v') : v'.calls = v.calls := by
  cases ha with
  | commit | discard | resettle => rw [enqueue_eq]; rfl
  | settle => rfl

/-- **Each action hands properties only to who may see them.** -/
theorem Deal.disclosesChecked {a : Action} (hd : Deal admits a v v') : v.DisclosesChecked v' := by
  cases hd with
  | nothing => exact .of_calls rfl
  | call _ lookups amended =>
    rcases amended with rfl | amended
    · exact .of_calls lookups.extends.calls
    · exact .of_calls (amended.calls.trans lookups.extends.calls)
  | register greetings => exact .of_calls greetings.calls
  | withdraw forgotten =>
    refine .of_calls (keep_of_steps (K := fun w => w.calls = v.calls) (fun _ _ h hw => ?_)
      forgotten rfl)
    cases h with
    | forget => exact hw
  | uninstall released =>
    refine .of_calls (keep_of_steps (K := fun w => w.calls = v.calls) (fun _ _ h hw => ?_)
      released rfl)
    cases h with
    | release => rw [enqueue_eq]; exact hw
  | submit => exact .of_calls (by rw [enqueue_eq])
  | around | extend => exact .of_calls rfl
  | work hw => exact hw.disclosesChecked.1
  | stop works =>
    obtain ⟨⟨new, hn, hc⟩, -⟩ := works_disclosesChecked works
    refine ⟨new, hn, fun k hk hd => ?_⟩
    exact (hc k hk hd).widen ⟨rfl, rfl, rfl, rfl, fun _ => .refl _, fun _ _ h => h⟩
      ⟨rfl, rfl, rfl, rfl, fun _ => .refl _, fun _ _ h => h⟩

end View

namespace Session

/-- What had been checked for a callback of a step, when the record stood as the occasion says:
the record that the step worked on was not deleted, the consumer was live, and the owner, which
the record has for good if it has one, was visible to the consumer or its own location.  The
consumer received what the plugins made of the properties given to them. -/
structure Entitled (s s' : Session) (k : Call) (o : Occasion) : Prop where
  made : k ∈ s'.calls.drop s.calls.length
  occasion : k.occasion = some o
  record : (s.record o.record).SameContent o.standing
  owner : ∀ l, o.standing.owner = some l → (s'.record o.record).owner = some l
  undeleted : o.standing.deleted = false
  live : s.directory.isLive k.consumer.service = true
  visible : s.permits k.consumer.service.location o.standing.owner = true ∨
    o.standing.owner = some k.consumer.service.location
  handed : ∃ p g identity, o.given = some (p, g) ∧
    k.message.properties? = some (s.plugins.run identity k.consumer.service p)

/-- The callbacks of a step. -/
theorem step_entitled {s : Session} (hf : s.view.Filed) (a : Action) :
    ∃ new, (s.step a).2.calls = s.calls ++ new ∧
      ∀ k ∈ new, k.Discloses → ∃ o, s.Entitled (s.step a).2 k o := by
  obtain ⟨new, hn, hc⟩ := (step_deal hf a).disclosesChecked
  have hcalls : (s.step a).2.calls = s.calls ++ new := hn
  refine ⟨new, hcalls, fun k hk hd => ?_⟩
  obtain ⟨o, v, ho, hl, hr, hst, hsee, p, g, identity, hgiven, hp⟩ := hc k hk hd
  refine ⟨o, ?_, ho, ?_, ?_, ?_, ?_, ?_, p, g, identity, hgiven, ?_⟩
  · rw [hcalls, List.drop_left]
    exact hk
  · rw [hst]
    exact hl.content o.record
  · intro l hown
    rw [hst] at hown
    exact hr.owned o.record l hown
  · rw [hst]
    exact hsee.undeleted
  · -- no task changes the directory, so that it is the one before the step
    have hlive := hsee.live
    rwa [hl.directory] at hlive
  · rw [hst]
    refine hsee.visible.imp_left fun hp => ?_
    rwa [View.permits, hl.access] at hp
  · rwa [hl.plugins] at hp

theorem run_calls {s : Session} (hf : s.view.Filed) (actions : List Action) :
    ∃ new, (s.run actions).calls = s.calls ++ new := by
  induction actions using List.reverseRecOn with
  | nil => exact ⟨[], (List.append_nil _).symm⟩
  | append_singleton before a ih =>
    obtain ⟨new, hn⟩ := ih
    obtain ⟨new', hn', -⟩ := step_entitled (run_filed hf before) a
    exact ⟨new ++ new', by rw [run_concat, hn', hn, List.append_assoc]⟩

/-- The callbacks of a run are those of its steps. -/
theorem run_entitled {s : Session} (hf : s.view.Filed) (actions : List Action) (k : Call)
    (hk : k ∈ (s.run actions).calls.drop s.calls.length) (hd : k.Discloses) :
    ∃ before a after o, actions = before ++ a :: after ∧
      (s.run before).Entitled (s.run (before ++ [a])) k o := by
  induction actions using List.reverseRecOn with
  | nil =>
    rw [run, List.drop_length] at hk
    exact absurd hk List.not_mem_nil
  | append_singleton before a ih =>
    obtain ⟨new, hn, hc⟩ := step_entitled (run_filed hf before) a
    obtain ⟨old, ho⟩ := run_calls hf before
    rw [run_concat, hn, ho, List.append_assoc, List.drop_left] at hk
    rcases List.mem_append.mp hk with hold | hnew
    · have hk' : k ∈ (s.run before).calls.drop s.calls.length := by
        rw [ho, List.drop_left]
        exact hold
      obtain ⟨before', a', after, o, rfl, hent⟩ := ih hk'
      exact ⟨before', a', after ++ [a], o, by simp, hent⟩
    · -- the last step has made the callback
      obtain ⟨o, hent⟩ := hc k hnew hd
      exact ⟨before, a, [], o, rfl, by rw [run_concat]; exact hent⟩

/-- **Visibility.**  Whenever a callback of a run discloses something of a record, one step of
the run made it, and at that moment the record was not deleted, the consumer was live, and the
owner of the record was one that the consumer may see or the location of the consumer. -/
theorem disclosures_entitled {w : World} {settings : Settings} {s : Session}
    (hs : start w settings = .ok s) (actions : List Action) (k : Call)
    (hk : k ∈ (s.run actions).calls.drop s.calls.length) (hd : k.Discloses) :
    ∃ before a after o, actions = before ++ a :: after ∧
      (s.run before).Entitled (s.run (before ++ [a])) k o :=
  run_entitled (start_filed hs) actions k hk hd

/-- A consumer that is there before the first update is handed it. -/
theorem disclosures_entitled_first_update :
    ∃ s actions k, start {} {} = .ok s ∧ k ∈ (s.run actions).calls.drop s.calls.length ∧
      k.Discloses ∧ ∃ before a after o, actions = before ++ a :: after ∧
        (s.run before).Entitled (s.run (before ++ [a])) k o := by
  obtain ⟨s, hs⟩ : ∃ s, start {} {} = .ok s := ⟨_, rfl⟩
  obtain ⟨actions, hactions⟩ : ∃ actions : List Action, actions =
      [.around (.addConsumer .single "here" ["pid"] 0), .getOrCreate "pid" none,
        .update "pid" .empty, .runUpdate] := ⟨_, rfl⟩
  have hany : ((s.run actions).calls.drop s.calls.length).any
      (fun k => k.message.properties?.isSome) = true := by
    cases hs
    subst hactions
    decide
  obtain ⟨k, hk, hp⟩ := List.any_eq_true.mp hany
  have hd : k.Discloses := Or.inl (Option.isSome_iff_ne_none.mp hp)
  exact ⟨s, actions, k, hs, hk, hd, disclosures_entitled hs actions k hk hd⟩

end Session
end Provisioning
