import Provisioning.Proofs.Accord
import Provisioning.Proofs.Draining

/-! # Pids do not interfere

All configurations share one line of tasks, one storage, one table of bindings and the hooks.  Yet
what happens on behalf of a pid does not depend on what administrators do to others: leave out of a
run all calls that change other configurations, and all work on records that these calls made, and
the consumers are called on behalf of the pid with the same properties in the same order, its record
goes through the same states, and its calls are answered alike.

The run and what is left of it are followed together.  What is left out does not touch the share of
the pid (`Unhindered.skipped`); what both sessions go through keeps them in accord
(`Concert.step`).
-/
namespace Provisioning
namespace Session

variable (p : String) (s : Session)

/-! ### What is left out -/

/-- Whether the task that runs next is work on a record of another pid. -/
def runsForeign : Bool :=
  match s.updates.waiting with
  | .deliver h _ _ :: _ | .retract h _ :: _ | .relocate h _ :: _ => (s.record h).pid != p
  | _ => false

/-- Whether an action is left out for the sake of a pid: a call that changes another configuration
or makes a member of a factory, and work on a record of another pid, which was made by such a call.
First deliveries to consumers are kept under every pid, because the hooks queue them. -/
def skips : Action → Bool
  | .getOrCreate pid _ | .update pid _ | .delete pid | .setLocation pid _ => pid != p
  | .createMember _ _ _ => true
  | .runUpdate => s.runsForeign p
  | _ => false

/-- What is left of a run. -/
def alone (s : Session) : List Action → List Action
  | [] => []
  | a :: rest =>
    if s.skips p a then alone (s.step a).2 rest else a :: alone (s.step a).2 rest

/-! ### What is observed -/

/-- The pid under which the task that runs next greets a consumer. -/
def greeted : Option String := s.updates.waiting.head?.bind Task.greets?

/-- The calls that an action makes on behalf of a pid, as far as they can be compared between
sessions. -/
def uttered (a : Action) : List Call :=
  (((s.step a).2.calls.drop s.calls.length).filter (Call.isFor p s.greeted)).map Call.unnumbered

/-- The calls that an action makes on behalf of a pid, when the last action runs all that waits. -/
def voiced : Action → List Call
  | .shutdown => s.history (uttered p) (.replicate s.updates.waiting.length .runUpdate)
  | a => s.uttered p a

/-- The answer to a call on a pid. -/
def answered (a : Action) : List (Answer × Option Record) :=
  if a.asks p then [(s.step a).1.told (s.step a).2] else []

variable {p s}

open View

theorem alone_append (before after : List Action) :
    s.alone p (before ++ after) = s.alone p before ++ (s.run before).alone p after := by
  induction before generalizing s with
  | nil => rfl
  | cons a rest ih =>
    rw [List.cons_append, alone, alone, ih]
    split <;> rfl

theorem voiced_eq {a : Action} (ha : a ≠ .shutdown) : s.voiced p a = s.uttered p a := by
  cases a with
  | shutdown => exact absurd rfl ha
  | _ => rfl

theorem asks_of_skips {a : Action} (ha : s.skips p a = true) : a.asks p = false := by
  cases a with
  | getOrCreate pid | update pid | delete pid | setLocation pid =>
    simpa [skips, Action.asks] using ha
  | getExisting | getLocation => cases ha
  | _ => rfl

/-- What calls nobody utters nothing. -/
theorem uttered_of_calls {a : Action} (h : (s.step a).2.calls = s.calls) :
    s.uttered p a = [] := by
  rw [uttered, h, List.drop_length]
  rfl

theorem calls_of_quiet (hf : s.view.Filed) {a : Action} (ha : a.isQuiet = true) :
    (s.step a).2.calls = s.calls := by
  have hdeal := step_deal hf a
  by_cases haround : ∃ action, a = .around action
  · obtain ⟨action, rfl⟩ := haround
    show (s.step (.around action)).2.view.calls = s.view.calls
    generalize (s.step (.around action)).2.view = v at hdeal ⊢
    cases hdeal with
    | nothing | around | extend => rfl
    | call administrative => cases administrative
  · exact (hdeal.interlude hf ha fun action he => absurd ⟨action, he⟩ haround).calls

/-! ### Actions that are left out -/

section Others

variable {bindingsId name pid : String} {h : Handle}

theorem ne_of_cached (hf : s.view.Filed) (hc : s.view.cached.get? pid = some h) (hne : pid ≠ p) :
    s.view.pids[h]? ≠ some p := by
  obtain ⟨hlt, hpid, -⟩ := hf.held pid h hc
  exact s.view.pids_ne (hpid ▸ hne) hlt

theorem Sealed.share_factory (hs : s.Sealed name) (f : String) :
    (s.factory f).2.view.share p = s.view.share p := by
  obtain ⟨rosters, hv⟩ := (hs.closed.factory f).lookups.exists_rosters
  rw [hv]
  rfl

namespace Unhindered

theorem share_getOrCreate (hu : s.Unhindered bindingsId name) (hne : pid ≠ p)
    (location : Option String) : (s.getOrCreate pid location).2.view.share p = s.view.share p := by
  cases hpid : checkPid pid with
  | error e => rw [hu.getOrCreate_of_blank hpid]
  | ok u =>
    cases hc : s.view.cached.get? pid with
    | some h => rw [hu.getOrCreate_of_cached hpid hc]
    | none =>
      obtain ⟨s', hs', hv⟩ := hu.getOrCreate_of_absent hpid hc location
      rw [hs', hv, share_adopt hu.tidy.filed hu.anchored, if_neg hne]

theorem share_update (hu : s.Unhindered bindingsId name) (hne : pid ≠ p) (q : Properties) :
    (s.update pid q).2.view.share p = s.view.share p := by
  obtain ⟨hsame, hcached⟩ := hu.mirrored.require_eq pid
  have hjoin : ∀ {result : Except AdminError Unit} {h : Handle} {s₂ : Session},
      s.join h = (result, s₂) → ∃ rosters, s₂.view = { s.view with rosters } := by
    intro result h s₂ hj
    obtain ⟨hjoined, -⟩ := hu.sealed.closed.join h
    rw [hj] at hjoined
    exact hjoined.lookups.exists_rosters
  have hcourse := s.updating pid q
  generalize s.update pid q = result at hcourse ⊢
  cases hcourse with
  | refused looked => rcases looked with rfl | rfl <;> simp only [hsame]
  | unjoined required joined | unstored required joined =>
    rw [required] at hsame
    obtain rfl : _ = s := hsame
    obtain ⟨rosters, hv⟩ := hjoin joined
    rw [hv]
    rfl
  | @updated h s₁ s₂ storage required joined =>
    rw [required] at hsame hcached
    obtain rfl : s₁ = s := hsame
    obtain ⟨rosters, hv⟩ := hjoin joined
    have hother : s₂.view.pids[h]? ≠ some p := by
      rw [hv]
      exact ne_of_cached hu.tidy.filed (hcached h rfl) hne
    have hsee : s₂.view.share p = s₁.view.share p := by
      rw [hv]
      rfl
    rw [view_commit, ← hsee]
    exact s₂.view.share_change_enqueue_of_ne (f := fun r => r.commit q) (fun _ => rfl) hother
      (if_neg hother)

theorem share_delete (hu : s.Unhindered bindingsId name) (hne : pid ≠ p) :
    (s.delete pid).2.view.share p = s.view.share p := by
  cases hc : s.view.cached.get? pid with
  | none => rw [hu.delete_of_absent hc]
  | some h =>
    obtain ⟨s', hs', hv⟩ := hu.delete_of_cached hc
    have hother := ne_of_cached hu.tidy.filed hc hne
    have hpid : (s.view.record h).pid = pid := (hu.tidy.filed.held pid h hc).2.1
    have hpids : (s.view.expunge h).pids = s.view.pids :=
      s.view.pids_change (f := fun r => { r with deleted := true }) (fun _ => rfl) h
    have hchange := s.view.share_change_of_ne (f := fun r => { r with deleted := true })
      (fun _ => rfl) hother
    rw [hs', hv, share_enqueue_of_none, share_expunge, hpid, if_neg (Ne.symm hne), hchange]
    · rw [hpids]
      exact if_neg hother

theorem share_setLocation (hu : s.Unhindered bindingsId name) (hne : pid ≠ p)
    (location : Option String) : (s.setLocation pid location).2.view.share p = s.view.share p := by
  cases hc : s.view.cached.get? pid with
  | none => rw [hu.setLocation_of_absent hc]
  | some h =>
    obtain ⟨s', hs', hv⟩ := hu.setLocation_of_cached hc location
    have hother := ne_of_cached hu.tidy.filed hc hne
    rw [hs', hv, View.resettle]
    split
    · exact s.view.share_change_of_ne (f := fun r => r.relocate location) (fun _ => rfl) hother
    · exact s.view.share_change_enqueue_of_ne (f := fun r => r.relocate location) (fun _ => rfl)
        hother (if_neg hother)

/-- A member is made under another pid than one that belongs to no factory. -/
theorem share_createMember (hu : s.Unhindered bindingsId name) {f : String}
    {location : Option String} {names : List String}
    (hp : (s.createMember f location names).2.view.Single p) :
    (s.createMember f location names).2.view.share p = s.view.share p := by
  have hfactory := hu.sealed.share_factory (p := p) f
  have hcourse := s.recruiting f location names
  generalize s.createMember f location names = result at hcourse hp ⊢
  cases hcourse with
  | refused looked =>
    rcases looked with rfl | rfl
    · rfl
    · exact hfactory
  | minted minting =>
    rw [← hfactory]
    have hm := hu.mirrored.factory f
    have hf := (hu.sealed.closed.factory f).lookups.filed hu.tidy.filed
    have ha : (s.factory f).2.view.Anchored := by
      obtain ⟨rosters, hv⟩ := (hu.sealed.closed.factory f).lookups.exists_rosters
      rw [hv]
      exact hu.anchored
    generalize (s.factory f).2 = s₁ at minting hm hf ha
    induction minting with
    | exhausted => rfl
    | @refused s₁ pid => rw [(hm.configuration_eq pid).1]
    | @taken s₁ pid rest result next ih =>
      have hsame := (hm.configuration_eq pid).1
      rw [hsame] at ih
      exact ih hp hm hf ha
    | @made s₁ s₂ pid home rest r absent primary new =>
      obtain ⟨hsame, hfound⟩ := hm.configuration_eq pid
      rw [absent] at hsame hfound
      obtain rfl : s₂ = s₁ := hsame
      have habsent : s₂.view.cached.get? r.pid = none := by
        rw [new]
        exact (hfound none rfl).symm
      rw [view_keepRecord habsent] at hp ⊢
      have hadopt := share_adopt (p := p) hf ha r
      split at hadopt
      · -- the member would be a record of the pid
        have hmem : r ∈ ((s₂.view.adopt r).share p).records := by
          rw [hadopt]
          exact List.mem_append_right _ (List.mem_singleton_self r)
        have hnone := hp r hmem
        rw [new] at hnone
        cases hnone
      · exact hadopt

end Unhindered

/-! ### Work -/

/-- The task that runs next is left out if the pid does not see it. -/
theorem runsForeign_iff {t : Task} {rest : List Task} (hw : s.view.waiting = t :: rest)
    (ht : t.Named s.view) : s.runsForeign p = true ↔ t.seen p s.view.pids = none := by
  have hw' : s.updates.waiting = t :: rest := hw
  unfold runsForeign
  rw [hw']
  cases t with
  | deliver h | retract h | relocate h =>
    have hpid := s.view.pids_getElem? (ht.bounded h (List.mem_singleton_self h))
    rw [Task.seen, hpid]
    by_cases he : (s.view.record h).pid = p
    · rw [if_pos (congrArg some he)]
      have hsame : (s.record h).pid = p := he
      simp [hsame]
    · rw [if_neg fun hp => he (Option.some.inj hp)]
      have hother : (s.record h).pid ≠ p := he
      simp [hother]
  | attach | attachFactory => simp [Task.seen]

theorem runUpdate_taskEffects {t : Task} {rest : List Task} (hw : s.view.waiting = t :: rest) :
    TaskEffects t { s.view with waiting := rest } s.runUpdate.view := by
  rw [s.runUpdate_busy hw, ← s.view_pop hw]
  exact perform_taskEffects _ t

/-- What work says is said about the records that it speaks of. -/
theorem uttered_runUpdate {t : Task} {rest : List Task} (hw : s.view.waiting = t :: rest) :
    ∃ new, s.runUpdate.view.calls = s.view.calls ++ new ∧ (∀ k ∈ new, t.Voices s.view k) ∧
      s.uttered p .runUpdate = (new.filter (Call.isFor p t.greets?)).map Call.unnumbered := by
  obtain ⟨new, hnew, hvoices⟩ := (runUpdate_taskEffects hw).voices
  refine ⟨new, hnew, hvoices, ?_⟩
  have hgreeted : s.greeted = t.greets? := by
    have hw' : s.updates.waiting = t :: rest := hw
    rw [greeted, hw']
    rfl
  have hcalls : (s.step .runUpdate).2.calls = s.calls ++ new := hnew
  rw [uttered, hcalls, List.drop_left, hgreeted]

/-- Other work is not seen, and utters nothing. -/
theorem runUpdate_beside {t : Task} {rest : List Task} (hw : s.view.waiting = t :: rest)
    (ht : t.Beside p s.view) :
    s.runUpdate.view.share p = ({ s.view with waiting := rest } : View).share p ∧
      s.uttered p .runUpdate = [] := by
  refine ⟨(runUpdate_taskEffects hw).share ⟨ht.records, ht.greets⟩, ?_⟩
  obtain ⟨new, -, hvoices, hu⟩ := uttered_runUpdate (p := p) hw
  rw [hu, List.filter_eq_nil_iff.mpr fun k hk => ?_]
  · rfl
  · rw [ht.not_isFor (hvoices k hk)]
    exact Bool.false_ne_true

/-- **What is left out is not seen**: it leaves the share of the pid alone, and nothing is said on
behalf of the pid. -/
theorem Unhindered.skipped (hu : s.Unhindered bindingsId name) {a : Action}
    (hp : (s.step a).2.view.Single p) (ha : s.skips p a = true) :
    (s.step a).2.view.share p = s.view.share p ∧ s.uttered p a = [] := by
  have hquiet : a.isQuiet = true → s.uttered p a = [] := fun hq =>
    uttered_of_calls (calls_of_quiet hu.tidy.filed hq)
  cases a with
  | getOrCreate pid location =>
    exact ⟨hu.share_getOrCreate (by simpa [skips] using ha) location, hquiet rfl⟩
  | update pid q => exact ⟨hu.share_update (by simpa [skips] using ha) q, hquiet rfl⟩
  | delete pid => exact ⟨hu.share_delete (by simpa [skips] using ha), hquiet rfl⟩
  | setLocation pid location =>
    exact ⟨hu.share_setLocation (by simpa [skips] using ha) location, hquiet rfl⟩
  | createMember f location names => exact ⟨hu.share_createMember hp, hquiet rfl⟩
  | runUpdate =>
    cases hw : s.view.waiting with
    | nil =>
      have hw' : s.updates.waiting = [] := hw
      simp [skips, runsForeign, hw'] at ha
    | cons t rest =>
      have hnamed := hu.named t (hw ▸ List.mem_cons_self)
      have hunseen := (runsForeign_iff hw hnamed).mp ha
      obtain ⟨hshare, huttered⟩ := runUpdate_beside hw (beside_of_unseen hnamed hunseen)
      refine ⟨hshare.trans ?_, huttered⟩
      rw [s.view.share_pop hw, hunseen]
      rfl
  | getExisting | members | list | getLocation | consumerRegistered | consumerWithdrawn
  | listenerRegistered | listenerWithdrawn | locationUninstalled | submit | addPlugin | removePlugin
  | around | runNotice | shutdown => cases ha

end Others

/-! ### Actions that are kept -/

namespace Concert

variable {bindingsId name : String} {t : Session}

/-- What runs next and is kept is seen as the same by both sessions. -/
theorem pop (hc : Concert bindingsId name p s t) (hkept : s.runsForeign p = false) {a : Task}
    {rest : List Task} (hw : s.view.waiting = a :: rest) :
    ∃ x b rest', a.seen p s.view.pids = some x ∧ t.view.waiting = b :: rest' ∧
      b.seen p t.view.pids = some x ∧
      Accord p { s.view with waiting := rest } { t.view with waiting := rest' } := by
  obtain ⟨x, hx⟩ : ∃ x, a.seen p s.view.pids = some x := by
    refine Option.ne_none_iff_exists'.mp fun hnone => ?_
    rw [(runsForeign_iff hw (hc.full.named a (hw ▸ List.mem_cons_self))).mpr hnone] at hkept
    cases hkept
  obtain ⟨b, rest', hw', hx', hpop⟩ := hc.accord.pop hw hx
  exact ⟨x, b, rest', hx, hw', hx', hpop⟩

/-- Both sessions do the same work, or work that is not for the pid. -/
theorem work (hc : Concert bindingsId name p s t) (hp : s.view.Single p)
    (hkept : s.runsForeign p = false) :
    Accord p s.runUpdate.view t.runUpdate.view ∧
      t.uttered p .runUpdate = s.uttered p .runUpdate := by
  cases hw : s.view.waiting with
  | nil =>
    have hidle := s.runUpdate_idle hw
    have hidle' := t.runUpdate_idle (hc.accord.idle hw)
    have hsilent : (s.step .runUpdate).2.calls = s.calls := congrArg (World.calls ·.toWorld) hidle
    have hsilent' : (t.step .runUpdate).2.calls = t.calls :=
      congrArg (World.calls ·.toWorld) hidle'
    refine ⟨by rw [hidle, hidle']; exact hc.accord, ?_⟩
    rw [uttered_of_calls hsilent, uttered_of_calls hsilent']
  | cons a rest =>
    have hnamed := hc.full.named a (hw ▸ List.mem_cons_self)
    obtain ⟨x, b, rest', hx, hw', hx', hpop⟩ := hc.pop hkept hw
    have hnamed' := hc.alone.named b (hw' ▸ List.mem_cons_self)
    have heffects := runUpdate_taskEffects hw
    have heffects' := runUpdate_taskEffects hw'
    have hsingle := View.Single.of_lt hp
    have hsingle' := View.Single.of_lt (View.Single.of_share hp hc.accord.share)
    rcases twinTasks_or_beside (v := { s.view with waiting := rest })
      (w := { t.view with waiting := rest' }) ⟨hnamed.bounded, hnamed.single, hnamed.members⟩
      ⟨hnamed'.bounded, hnamed'.single, hnamed'.members⟩ hsingle hsingle' hx hx'
      with htwins | ⟨hbeside, hbeside'⟩
    · obtain ⟨new, hnew, hvoices, huttered⟩ := uttered_runUpdate (p := p) hw
      obtain ⟨new', hnew', hvoices', huttered'⟩ := uttered_runUpdate (p := p) hw'
      obtain ⟨habout, habout', hgreets⟩ := htwins.about
      have habreast : Abreast p { s.view with waiting := rest } { t.view with waiting := rest' }
          s.runUpdate.view t.runUpdate.view := by
        rw [s.runUpdate_busy hw, t.runUpdate_busy hw']
        refine Abreast.perform ?_ htwins
        rw [s.view_pop hw, t.view_pop hw']
        exact .refl hpop.share
      refine ⟨hpop.worked heffects' habreast.share, ?_⟩
      -- all that is said is said on behalf of the pid
      obtain ⟨said, said', hsaid, hsaid', hsame⟩ := habreast.calls
      obtain rfl : new = said := List.append_cancel_left (hnew.symm.trans hsaid)
      obtain rfl : new' = said' := List.append_cancel_left (hnew'.symm.trans hsaid')
      rw [huttered, huttered', List.filter_eq_self.mpr fun k hk => habout.isFor (hvoices k hk),
        List.filter_eq_self.mpr fun k hk => habout'.isFor (hvoices' k hk), hsame]
    · obtain ⟨hshare, huttered⟩ := runUpdate_beside hw ⟨hbeside.records, hbeside.greets⟩
      obtain ⟨hshare', huttered'⟩ := runUpdate_beside hw' ⟨hbeside'.records, hbeside'.greets⟩
      exact ⟨hpop.worked heffects' (hshare'.trans (hpop.share.trans hshare.symm)),
        huttered'.trans huttered.symm⟩

/-- What is no call on the pid and is not left out happens to both sessions alike. -/
theorem unasked (hc : Concert bindingsId name p s t) {a : Action} (hquiet : a.isQuiet = true)
    (hasks : a.asks p = false) (hkept : s.skips p a = false) :
    Accord p (s.step a).2.view (t.step a).2.view := by
  have hlisteners : ∀ (s : Session) (l : Service), (s.listenerRegistered l).view = s.view := by
    intro s l
    unfold Session.listenerRegistered
    split <;> rfl
  have hdirectory : t.directory = s.directory := congrArg Share.directory hc.accord.share
  have hplugins : t.plugins = s.plugins := congrArg Share.plugins hc.accord.share
  cases a with
  | getOrCreate pid | update pid | delete pid | setLocation pid =>
    have hne : pid ≠ p := by simpa [Action.asks] using hasks
    exact absurd (show pid = p by simpa [skips] using hkept) hne
  | createMember => cases hkept
  | getExisting pid =>
    show Accord p (s.getExisting pid).2.view (t.getExisting pid).2.view
    rw [hc.full.getExisting_eq, hc.alone.getExisting_eq]
    exact hc.accord
  | getLocation pid =>
    show Accord p (s.getLocation pid).2.view (t.getLocation pid).2.view
    rw [hc.full.getLocation_eq, hc.alone.getLocation_eq]
    exact hc.accord
  | members f =>
    exact hc.accord.lookups (hc.full.sealed.closed.members f).lookups
      (hc.alone.sealed.closed.members f).lookups
  | list => exact hc.accord
  | consumerRegistered c =>
    exact hc.full.sealed.accord_consumerRegistered hc.alone.sealed hc.accord c
  | consumerWithdrawn service =>
    exact accord_consumerWithdrawn hc.full.tidy.filed hc.alone.tidy.filed hc.accord service
  | locationUninstalled location =>
    exact accord_locationUninstalled hc.full.tidy.filed hc.alone.tidy.filed hc.accord location
  | listenerRegistered l =>
    show Accord p (s.listenerRegistered l).view (t.listenerRegistered l).view
    rw [hlisteners, hlisteners]
    exact hc.accord
  | listenerWithdrawn => exact ⟨hc.accord.share, hc.accord.cached, hc.accord.waiting⟩
  | addPlugin rank target plugin =>
    show Accord p _ { t.view with plugins := (t.plugins.register rank target plugin).2 }
    rw [hplugins]
    exact hc.accord.of_plugins
  | removePlugin id =>
    show Accord p _ { t.view with plugins := (t.plugins.unregister id).2 }
    rw [hplugins]
    exact hc.accord.of_plugins
  | around action =>
    have hsame : (t.toWorld.step action).directory = (s.toWorld.step action).directory := by
      cases action with
      | withdraw id | behave id =>
        simp only [World.step, hdirectory]
        split <;> simp [hdirectory]
      | install | setState | uninstall | addConsumer | addListener | backend =>
        simp [World.step, hdirectory]
    rw [view_around, view_around, hsame]
    exact hc.accord.of_directory
  | runNotice =>
    show Accord p s.runNotice.view t.runNotice.view
    rw [s.runNotice_view, t.runNotice_view]
    exact hc.accord
  | submit | runUpdate | shutdown => cases hquiet

/-- **What is kept keeps both sessions in accord**; the same is said on behalf of the pid, and the
same is answered. -/
theorem step (hc : Concert bindingsId name p s t) {a : Action} (hsub : ∀ t, a ≠ .submit t)
    (hend : a ≠ .shutdown) (hback : ∀ name change, a ≠ .around (.backend name change))
    (hp : s.view.Single p) (hkept : s.skips p a = false) :
    Concert bindingsId name p (s.step a).2 (t.step a).2 ∧ t.uttered p a = s.uttered p a ∧
      t.answered p a = s.answered p a := by
  suffices hsame : Accord p (s.step a).2.view (t.step a).2.view ∧ t.uttered p a = s.uttered p a ∧
      t.answered p a = s.answered p a from
    ⟨⟨hc.full.step hsub hend hback, hc.alone.step hsub hend hback, hsame.1⟩, hsame.2⟩
  by_cases hwork : a = .runUpdate
  · subst hwork
    obtain ⟨haccord, huttered⟩ := hc.work hp hkept
    exact ⟨haccord, huttered, rfl⟩
  have hquiet : a.isQuiet = true := by
    cases a with
    | submit t => exact absurd rfl (hsub t)
    | runUpdate => exact absurd rfl hwork
    | shutdown => exact absurd rfl hend
    | _ => rfl
  have huttered : t.uttered p a = s.uttered p a := by
    rw [uttered_of_calls (calls_of_quiet hc.full.tidy.filed hquiet),
      uttered_of_calls (calls_of_quiet hc.alone.tidy.filed hquiet)]
  unfold answered
  cases hasks : a.asks p with
  | true =>
    have hconcur := hc.asked hp hasks
    refine ⟨hconcur.accord, huttered, ?_⟩
    rw [hconcur.told]
  | false => exact ⟨hc.unasked hquiet hasks hkept, huttered, rfl⟩

/-- What is left out is as if it had not happened. -/
theorem skip (hc : Concert bindingsId name p s t) {a : Action} (hsub : ∀ t, a ≠ .submit t)
    (hend : a ≠ .shutdown) (hback : ∀ name change, a ≠ .around (.backend name change))
    (hp : (s.step a).2.view.Single p) (hskip : s.skips p a = true) :
    Concert bindingsId name p (s.step a).2 t ∧ s.uttered p a = [] ∧ s.answered p a = [] := by
  obtain ⟨hshare, huttered⟩ := hc.full.skipped hp hskip
  refine ⟨⟨hc.full.step hsub hend hback, hc.alone, ?_⟩, huttered, ?_⟩
  · exact ⟨hc.accord.share.trans hshare.symm, hc.accord.cached, hc.accord.waiting⟩
  · rw [answered, asks_of_skips hskip]
    rfl

end Concert

/-- What belongs to no factory in the end never did. -/
theorem Follows.single {s' : Session} (h : s.Follows s') (hp : s'.view.Single p) :
    s.view.Single p := by
  intro r hr
  obtain ⟨hmem, hpid⟩ := List.mem_filter.mp hr
  obtain ⟨i, hi, rfl⟩ := List.getElem_of_mem hmem
  have hrecord : s.view.record i = s.view.records[i] := by
    unfold View.record
    rw [List.getElem?_eq_getElem hi]
    rfl
  rw [← hrecord] at hpid ⊢
  have hpid' : (s'.record i).pid = p := (h.pid i hi).trans (of_decide_eq_true hpid)
  have hnone := View.Single.of_lt hp i (Nat.lt_of_lt_of_le hi h.length) hpid'
  exact (h.factoryPid i hi).symm.trans hnone

namespace Concert

variable {bindingsId name : String} {t : Session} {actions : List Action}

/-- **A run and what is left of it.** -/
theorem run (hc : Concert bindingsId name p s t) (hsub : ∀ t, .submit t ∉ actions)
    (hend : .shutdown ∉ actions) (hback : ∀ name change, .around (.backend name change) ∉ actions)
    (hp : (s.run actions).view.Single p) :
    Concert bindingsId name p (s.run actions) (t.run (s.alone p actions)) ∧
      t.history (voiced p) (s.alone p actions) = s.history (voiced p) actions ∧
      t.history (answered p) (s.alone p actions) = s.history (answered p) actions := by
  induction actions generalizing s t with
  | nil => exact ⟨hc, rfl, rfl⟩
  | cons a rest ih =>
    have hsub' : ∀ t, a ≠ .submit t := fun t he => hsub t (he ▸ List.mem_cons_self)
    have hend' : a ≠ .shutdown := fun he => hend (he ▸ List.mem_cons_self)
    have hback' : ∀ name change, a ≠ .around (.backend name change) := fun name change he =>
      hback name change (he ▸ List.mem_cons_self)
    have hsubs : ∀ t, .submit t ∉ rest := fun t hm => hsub t (List.mem_cons_of_mem a hm)
    have hends : .shutdown ∉ rest := fun hm => hend (List.mem_cons_of_mem a hm)
    have hbacks : ∀ name change, .around (.backend name change) ∉ rest := fun name change hm =>
      hback name change (List.mem_cons_of_mem a hm)
    have hfiled : (s.step a).2.view.Filed := (hc.full.step hsub' hend' hback').tidy.filed
    have hnext : (s.step a).2.view.Single p := (run_follows hfiled hends).single hp
    rw [Session.alone]
    split
    · next hskip =>
      obtain ⟨hskipped, huttered, hanswered⟩ := hc.skip hsub' hend' hback' hnext hskip
      obtain ⟨hall, hsaid, htold⟩ := ih hskipped hsubs hends hbacks hp
      refine ⟨hall, ?_, ?_⟩
      · rw [history, voiced_eq hend', huttered, hsaid, List.nil_append]
      · rw [history, hanswered, htold, List.nil_append]
    · next hkept =>
      have hnow := (step_follows hc.full.tidy.filed hend').single hnext
      obtain ⟨hstep, huttered, hanswered⟩ :=
        hc.step hsub' hend' hback' hnow (Bool.eq_false_iff.mpr hkept)
      obtain ⟨hall, hsaid, htold⟩ := ih hstep hsubs hends hbacks hp
      refine ⟨hall, ?_, ?_⟩
      · rw [history, history, voiced_eq hend', voiced_eq hend', huttered, hsaid]
      · rw [history, history, hanswered, htold]

/-- The line of the second session is what the pid sees of that of the first. -/
theorem alone_drain (hc : Concert bindingsId name p s t) {n : Nat}
    (hn : s.view.waiting.length = n)
    (hp : (s.run (.replicate n .runUpdate)).view.Single p) :
    s.alone p (.replicate n .runUpdate) = .replicate t.view.waiting.length .runUpdate := by
  induction n generalizing s t with
  | zero =>
    rw [hc.accord.idle (List.length_eq_zero_iff.mp hn)]
    rfl
  | succ n ih =>
    have hnext : (s.step .runUpdate).2.view.Single p :=
      (run_follows (hc.full.step (a := .runUpdate) nofun nofun nofun).tidy.filed
        fun hm => by cases List.eq_of_mem_replicate hm).single hp
    have hnow := (step_follows hc.full.tidy.filed (a := .runUpdate) nofun).single hnext
    have htail : (s.step .runUpdate).2.view.waiting.length = n := by
      have hwaiting : (s.step .runUpdate).2.view.waiting = s.view.waiting.tail :=
        s.runUpdate_waiting.1
      rw [hwaiting, List.length_tail, hn]
      rfl
    rw [List.replicate_succ, Session.alone]
    split
    · next hskip =>
      obtain ⟨hskipped, -, -⟩ := hc.skip (a := .runUpdate) nofun nofun nofun hnext hskip
      exact ih hskipped htail hp
    · next hkept =>
      have hkept : s.skips p .runUpdate = false := Bool.eq_false_iff.mpr hkept
      obtain ⟨hstep, -, -⟩ := hc.step (a := .runUpdate) nofun nofun nofun hnow hkept
      have htail' : (t.step .runUpdate).2.view.waiting = t.view.waiting.tail :=
        t.runUpdate_waiting.1
      obtain ⟨a, rest, hw⟩ := List.exists_cons_of_length_eq_add_one hn
      obtain ⟨-, b, rest', -, hw', -, -⟩ := hc.pop hkept hw
      rw [ih hstep htail hp, htail', hw']
      rfl

end Concert

/-- What is left of a session that is shut down: its worker has run what waited. -/
theorem shutdown_drained (hopen : s.updates.accepting = true) : s.shutdown.view =
    { (s.run (.replicate s.updates.waiting.length .runUpdate)).view with
      cached := .empty, rosters := .empty, waiting := [], accepting := false } := by
  have hview : (s.run s.lastSteps).view =
      (s.run (.replicate s.updates.waiting.length .runUpdate)).view := by
    rw [lastSteps, run_append, run_runNotices]
    exact runNotices_view _ _
  rw [s.shutdown_eq hopen, ← hview]
  rfl

namespace Concert

variable {bindingsId name : String} {t : Session}

/-- Both sessions end alike. -/
theorem shutdown (hc : Concert bindingsId name p s t) (hp : s.shutdown.view.Single p) :
    t.voiced p .shutdown = s.voiced p .shutdown ∧
      (t.shutdown.view.share p).records = (s.shutdown.view.share p).records := by
  have hdrained := shutdown_drained (s := s) hc.full.running
  have hdrained' := shutdown_drained (s := t) hc.alone.running
  rw [hdrained] at hp ⊢
  rw [hdrained']
  have hno : ∀ {n : Nat} {a : Action}, a ≠ .runUpdate → a ∉ List.replicate n .runUpdate :=
    fun hne hm => hne (List.eq_of_mem_replicate hm)
  obtain ⟨hrun, hsaid, -⟩ := hc.run (fun _ => hno nofun) (hno nofun) (fun _ _ => hno nofun) hp
  have halone : s.alone p (.replicate s.updates.waiting.length .runUpdate) =
      .replicate t.updates.waiting.length .runUpdate := hc.alone_drain rfl hp
  rw [halone] at hrun hsaid
  have hrecords := congrArg Share.records hrun.accord.share
  have hwork : ∀ (u : Session) (n : Nat), u.history (Session.voiced p) (.replicate n .runUpdate) =
      u.history (uttered p) (.replicate n .runUpdate) := fun u n =>
    history_congr (fun u a ha => by rw [List.eq_of_mem_replicate ha]; rfl) u
  rw [hwork, hwork] at hsaid
  exact ⟨hsaid, hrecords⟩

/-- The record that is cached under the pid is the same. -/
theorem cached_record (hc : Concert bindingsId name p s t) :
    (t.cache.record? p).map t.record = (s.cache.record? p).map s.record := by
  show (t.view.cached.get? p).map t.record = (s.view.cached.get? p).map s.record
  rcases hc.cached with ⟨habsent, habsent'⟩ | ⟨h, h', hcached, hcached', htwins⟩
  · rw [habsent, habsent']
    rfl
  · rw [hcached, hcached']
    exact congrArg some (hc.accord.record htwins)

end Concert

/-! ### After the end -/

theorem Ended.voiced (hs : s.Ended) (a : Action) : s.voiced p a = [] := by
  by_cases ha : a = .shutdown
  · subst ha
    have hnone : s.updates.waiting = [] := congrArg WorkLine.waiting hs.updates
    rw [Session.voiced, hnone]
    rfl
  · rw [voiced_eq ha]
    exact uttered_of_calls (hs.step a).2.1.calls

theorem Ended.answered (hs : s.Ended) (a : Action) :
    s.answered p a = if a.asks p then [(.refused .shutDown, none)] else [] := by
  unfold Session.answered
  split
  · next hasks =>
    have hcall : a.isAdministrative = true := by
      cases a with
      | getOrCreate | getExisting | update | delete | setLocation | getLocation => rfl
      | _ => cases hasks
    rw [hs.refuses hcall]
    rfl
  · rfl

/-- After the end it makes no difference what is left out. -/
theorem Ended.alone {t : Session} (hs : s.Ended) (ht : t.Ended) (actions : List Action) :
    t.history (Session.voiced p) (s.alone p actions) = s.history (Session.voiced p) actions ∧
      t.history (Session.answered p) (s.alone p actions) =
        s.history (Session.answered p) actions := by
  induction actions generalizing s t with
  | nil => exact ⟨rfl, rfl⟩
  | cons a rest ih =>
    rw [Session.alone]
    split
    · next hskip =>
      obtain ⟨hsaid, htold⟩ := ih (hs.step a).1 ht
      rw [history, history, hs.voiced, hs.answered, asks_of_skips hskip, hsaid, htold]
      exact ⟨rfl, rfl⟩
    · obtain ⟨hsaid, htold⟩ := ih (hs.step a).1 (ht.step a).1
      rw [history, history, history, history, hs.voiced, ht.voiced, hs.answered, ht.answered, hsaid,
        htold]
      exact ⟨rfl, rfl⟩

/-! ### Whole sessions -/

/-- A session that is shut down in between, and goes on as if it had been alone. -/
theorem Concert.run_ended {bindingsId name : String} {t : Session}
    (hc : Concert bindingsId name p s t) {before after : List Action}
    (hsub : ∀ t, .submit t ∉ before) (hend : .shutdown ∉ before)
    (hback : ∀ name change, .around (.backend name change) ∉ before)
    (hp : (s.run (before ++ .shutdown :: after)).view.Single p) :
    let actions := before ++ .shutdown :: after
    t.history (voiced p) (s.alone p actions) = s.history (voiced p) actions ∧
    t.history (answered p) (s.alone p actions) = s.history (answered p) actions ∧
    ((t.run (s.alone p actions)).view.share p).records = ((s.run actions).view.share p).records ∧
    (s.run actions).Ended ∧ (t.run (s.alone p actions)).Ended := by
  have hu := hc.full.run hsub hend hback
  have hended := shutdown_ended hu.running
  have hsplit : s.alone p (before ++ .shutdown :: after) =
      s.alone p before ++ .shutdown :: (s.run before).shutdown.alone p after := by
    rw [alone_append]
    rfl
  have hrun : s.run (before ++ .shutdown :: after) = (s.run before).shutdown.run after :=
    s.run_append before _
  rw [hrun] at hp
  -- the records of the pid are looked at in the end, but they belonged to no factory before
  have hlast : (s.run before).shutdown.view.Single p :=
    View.Single.of_records hp (hended.records_run after).symm
  have hnow : (s.run before).view.Single p := by
    rw [shutdown_drained hu.running] at hlast
    exact (run_follows hu.tidy.filed fun hm => by cases List.eq_of_mem_replicate hm).single hlast
  obtain ⟨hfirst, hsaid, htold⟩ := hc.run hsub hend hback hnow
  obtain ⟨hsaid₁, hrecords₁⟩ := hfirst.shutdown hlast
  have hended' := shutdown_ended hfirst.alone.running
  obtain ⟨hsaid₂, htold₂⟩ := hended.alone hended' after
  dsimp only
  rw [hsplit, hrun, run_append, history_append, history_append, history_append, history_append,
    hsaid, htold]
  refine ⟨?_, ?_, ?_, (hended.run after).1, (hended'.run _).1⟩
  · rw [history, history, hsaid₁]
    exact congrArg _ (congrArg _ hsaid₂)
  · rw [history, history]
    exact congrArg _ htold₂
  · have hlasting : ∀ {u : Session}, u.Ended → ∀ actions,
        ((u.run actions).view.share p).records = (u.view.share p).records := fun hu actions =>
      congrArg (List.filter fun r : Record => r.pid = p) (hu.records_run actions)
    exact (hlasting hended' _).trans (hrecords₁.trans (hlasting hended after).symm)

/-- A session that has just started is in accord with itself about every pid. -/
theorem start_concert {w : World} (hw : w.InMemory) {settings : Settings}
    (hs : start w settings = .ok s) (p : String) :
    ∃ name, Concert settings.bindingsId name p s s := by
  obtain ⟨name, hu⟩ := Unhindered.start hw hs
  refine ⟨name, hu, hu, rfl, fun pid h hc => ?_, fun t ht => ?_⟩
  · rw [start_view hs, Table.get?_empty] at hc
    cases hc
  · rw [start_view hs] at ht
    exact absurd ht List.not_mem_nil

/-- **Pids do not interfere.**  A manager runs over one backend in memory that was empty and that
nobody else writes to, and no tasks are submitted.  Take a pid under which no member of a factory
was made, and leave out of the run every call that creates, updates, moves or deletes another
configuration or makes a member of a factory, together with all work on records of other pids.
Then the consumers are called on behalf of the pid as they were, with the same properties in the
same order and about the same record; every call on the pid is answered as it was; and in the end
the records of the pid are the same, with their properties, owners, counters and marks, and so is
the one that is cached. -/
theorem pids_do_not_interfere {w : World} (hw : w.InMemory) {settings : Settings}
    (hs : start w settings = .ok s) {p : String} {actions : List Action}
    (hsub : ∀ t, .submit t ∉ actions)
    (hback : ∀ name change, .around (.backend name change) ∉ actions)
    (hp : ∀ r ∈ (s.run actions).records, r.pid = p → r.factoryPid = none) :
    let kept := s.alone p actions
    s.history (voiced p) kept = s.history (voiced p) actions ∧
    s.history (answered p) kept = s.history (answered p) actions ∧
    ((s.run kept).records.filter fun r => r.pid = p) =
      (s.run actions).records.filter (fun r => r.pid = p) ∧
    ((s.run kept).cache.record? p).map (s.run kept).record =
      ((s.run actions).cache.record? p).map (s.run actions).record := by
  dsimp only
  obtain ⟨name, hc⟩ := start_concert hw hs p
  have hsingle : (s.run actions).view.Single p := fun r hr =>
    hp r (List.mem_of_mem_filter hr) (of_decide_eq_true (List.mem_filter.mp hr).2)
  by_cases hend : .shutdown ∈ actions
  · obtain ⟨before, after, rfl, hbefore⟩ := List.eq_append_cons_of_mem hend
    have hsub' : ∀ t, .submit t ∉ before := fun t hm => hsub t (List.mem_append_left _ hm)
    have hback' : ∀ name change, .around (.backend name change) ∉ before := fun name change hm =>
      hback name change (List.mem_append_left _ hm)
    obtain ⟨hsaid, htold, hrecords, hdone, hdone'⟩ := hc.run_ended hsub' hbefore hback' hsingle
    refine ⟨hsaid, htold, hrecords, ?_⟩
    rw [hdone.cache, hdone'.cache]
    rfl
  · obtain ⟨hrun, hsaid, htold⟩ := hc.run hsub hend hback hsingle
    exact ⟨hsaid, htold, congrArg Share.records hrun.accord.share, hrun.cached_record⟩

/-- A consumer of two configurations. -/
def visitor : Consumer :=
  (({} : Directory).registerConsumer .single "here" ["pid", "other"] 0).1

/-- Two configurations and a member of a factory get into one line of tasks, and the session is shut
down before they are all run. -/
def entangled : List Action :=
  [.around (.addConsumer .single "here" ["pid", "other"] 0), .getOrCreate "other" none,
    .getOrCreate "pid" none, .createMember "factory" none ["member"], .update "other" .empty,
    .consumerRegistered visitor, .update "pid" .empty, .update "member" .empty, .runUpdate,
    .runUpdate, .delete "other", .runUpdate, .runUpdate, .getLocation "pid",
    .setLocation "pid" (some "there"), .shutdown, .getExisting "pid"]

/-- Of seventeen actions eleven are left; the consumer is greeted under the pid, is served, and
loses the record when it is moved. -/
theorem pids_do_not_interfere_entangled :
    ∃ s, World.InMemory {} ∧ start {} {} = .ok s ∧
      (∀ r ∈ (s.run entangled).records, r.pid = "pid" → r.factoryPid = none) ∧
      s.history (voiced "pid") (s.alone "pid" entangled) = s.history (voiced "pid") entangled ∧
      (s.alone "pid" entangled).length = 11 ∧
      (s.history (voiced "pid") entangled).map (fun k => k.message.properties?.isSome) =
        [false, true, false] := by
  obtain ⟨s, hs⟩ : ∃ s, start {} {} = .ok s := ⟨_, rfl⟩
  have hw : World.InMemory {} := Or.inl rfl
  have hp : ∀ r ∈ (s.run entangled).records, r.pid = "pid" → r.factoryPid = none := by
    cases hs
    decide +kernel
  obtain ⟨hvoiced, -⟩ :=
    pids_do_not_interfere hw hs (by simp [entangled]) (by simp [entangled]) hp
  refine ⟨s, hw, hs, hp, hvoiced, ?_, ?_⟩
  · cases hs
    decide +kernel
  · cases hs
    decide +kernel

end Session
end Provisioning
