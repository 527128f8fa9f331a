import Provisioning.Proofs.Abreast
import Provisioning.Proofs.Agreement
import Provisioning.Proofs.Holders
import Provisioning.Proofs.Isolation
import Provisioning.Proofs.Mirror
import Provisioning.Proofs.SoundStorage

/-! # Calls that nothing hinders

Over one backend that was empty at the start and fails at nothing, a call is decided by the cache
alone: what is not cached is not there, what is stored is stored, and no record comes with a
binding.  So a call is refused or comes to one change of what deliveries see, and which change it
is can be said as an equation.
-/
namespace Provisioning

open Relation (ReflTransGen)

namespace View

variable {admits : Record → Prop} {v v' : View} {t : Task}

/-! ### What tasks speak of -/

theorem Outlives.named (h : v.Outlives v') (ht : t.Named v) : t.Named v' where
  bounded := fun i hi => Nat.lt_of_lt_of_le (ht.bounded i hi) h.length
  single := by
    rintro c pid m rfl
    exact (h.pid _ (ht.bounded _ (List.mem_singleton_self _))).trans (ht.single c pid m rfl)
  members := by
    rintro c f ms rfl m hm
    exact (h.factoryPid _ (ht.bounded _ (List.mem_map_of_mem hm))).trans
      (ht.members c f ms rfl m hm)

/-- Whatever waits speaks of the records that it is named for. -/
def Named (v : View) : Prop := ∀ t ∈ v.waiting, t.Named v

theorem Named.of_outlives (hv : v.Named) (h : v.Outlives v') (hw : v'.waiting ⊆ v.waiting) :
    v'.Named :=
  fun t ht => h.named (hv t (hw ht))

theorem Named.enqueue (hv : v.Named) (ht : t.Named v) : (v.enqueue t).Named := by
  have hsame : v.Outlives (v.enqueue t) := .of_records (by rw [enqueue_eq])
  intro t' ht'
  obtain ⟨queued, hqueued, hall⟩ := v.waiting_enqueue t
  rw [hqueued] at ht'
  rcases List.mem_append.mp ht' with hold | hnew
  · exact hsame.named (hv t' hold)
  · exact hsame.named (hall t' hnew ▸ ht)

/-- A task for one record that is no first delivery. -/
theorem named_of_lt {h : Handle} (hr : t.records = [h]) (hlt : h < v.records.length)
    (hs : t.consumer? = none) : t.Named v where
  bounded := by
    intro i hi
    rw [hr] at hi
    rw [List.mem_singleton.mp hi]
    exact hlt
  single := fun c pid m he => by
    rw [he] at hs
    cases hs
  members := fun c f ms he => by
    rw [he] at hs
    cases hs

theorem Extends.outlives (h : Extends admits v v') : v.Outlives v' :=
  ⟨h.length_le, fun _ hi => congrArg Record.pid (h.record_eq hi),
    fun _ hi => congrArg Record.factoryPid (h.record_eq hi)⟩

theorem Extends.named (h : Extends admits v v') (hv : v.Named) : v'.Named :=
  hv.of_outlives h.outlives (h.waiting ▸ List.Subset.refl _)

theorem named_change {f : Record → Record} (hpid : ∀ r, (f r).pid = r.pid)
    (hfac : ∀ r, (f r).factoryPid = r.factoryPid) (hv : v.Named) (h : Handle) :
    (v.change h f).Named :=
  hv.of_outlives ⟨Nat.le_of_eq (v.length_change h f).symm,
    fun i _ => v.record_change_of_eq hpid h i, fun i _ => v.record_change_of_eq hfac h i⟩
    (List.Subset.refl _)

theorem Named.amendment (hv : v.Named) (hf : v.Filed) (ha : v.Amendment v') : v'.Named := by
  have hthere : ∀ {h : Handle}, v.cached.get? (v.record h).pid = some h →
      h < v.records.length := fun hc => (hf.held _ _ hc).1
  cases ha with
  | @commit h p cached =>
    refine (named_change (f := fun r => r.commit p) (fun _ => rfl) (fun _ => rfl) hv h).enqueue ?_
    exact named_of_lt rfl (by simpa using hthere cached) rfl
  | @discard h cached =>
    have hdel : (v.change h fun r => { r with deleted := true }).Named :=
      named_change (f := fun r => { r with deleted := true }) (fun _ => rfl) (fun _ => rfl) hv h
    refine Named.enqueue (hdel.of_outlives (.of_records rfl) (List.Subset.refl _)) ?_
    exact named_of_lt rfl (by simpa [change] using hthere cached) rfl
  | @settle h location =>
    exact named_change (f := fun r => r.relocate location) (fun _ => rfl) (fun _ => rfl) hv h
  | @resettle h location cached =>
    refine (named_change (f := fun r => r.relocate location) (fun _ => rfl) (fun _ => rfl)
      hv h).enqueue ?_
    exact named_of_lt rfl (by simpa using hthere cached) rfl

theorem Named.greeting {c : Consumer} {identity : String} (hv : v.Named) (hf : v.Filed)
    (hg : Greeting c identity v v') : v'.Named := by
  cases hg with
  | single =>
    refine hv.enqueue ?_
    cases hc : v.cached.get? identity with
    | none => exact ⟨fun _ hm => absurd hm List.not_mem_nil, nofun, nofun⟩
    | some h =>
      obtain ⟨hlt, hpid, -⟩ := hf.held identity h hc
      refine ⟨fun i hi => ?_, fun _ _ _ he => ?_, nofun⟩
      · rw [List.mem_singleton.mp hi]
        exact hlt
      · cases he
        exact hpid
  | members _ sound =>
    refine hv.enqueue ⟨fun i hi => ?_, nofun, fun _ _ _ he m hm => ?_⟩
    · obtain ⟨m, hm, rfl⟩ := List.mem_map.mp hi
      obtain ⟨pid, h, hc, rfl, -⟩ := sound m hm
      exact (hf.held pid h hc).1
    · cases he
      obtain ⟨pid, h, hc, rfl, hfac⟩ := sound m hm
      exact hfac
  | unlisted => exact hv

theorem Named.greetings {c : Consumer} {identities : List String} (hv : v.Named) (hf : v.Filed)
    (hg : Greetings admits c identities v v') : v'.Named := by
  induction hg with
  | done => exact hv
  | next lookups greeting _ ih =>
    have hfiled := lookups.filed hf
    exact ih ((lookups.extends.named hv).greeting hfiled greeting) (greeting.filed hfiled)

/-- Tasks that speak of other records are never queued, only submitted. -/
theorem Deal.named {a : Action} (hd : Deal admits a v v') (hsub : ∀ t, a ≠ .submit t)
    (hend : a ≠ .shutdown) (hf : v.Filed) (hv : v.Named) : v'.Named := by
  cases hd with
  | nothing => exact hv
  | call _ lookups amended =>
    rcases amended with rfl | amended
    · exact lookups.extends.named hv
    · exact (lookups.extends.named hv).amendment (lookups.filed hf) amended
  | register greetings => exact hv.greetings hf greetings
  | @withdraw service _ _ forgotten =>
    refine keep_of_steps (K := Named) (fun _ _ ho hk => ?_) forgotten hv
    cases ho with
    | @forget h =>
      exact named_change (f := fun r => r.forget service) (fun _ => rfl) (fun _ => rfl) hk h
  | @uninstall location _ _ released =>
    refine keep_of_steps (K := Named) (fun v₁ _ hr hk => ?_) released hv
    cases hr with
    | @release h bound =>
      have hlt : h < v₁.records.length := by
        refine Nat.lt_of_not_le fun hge => ?_
        rw [record_of_length_le hge] at bound
        cases bound
      refine (named_change (f := fun r => r.release location)
        (fun r => (r.sameContent_release location).pid)
        (fun r => (r.sameContent_release location).factoryPid) hk h).enqueue ?_
      exact named_of_lt rfl (by simpa using hlt) rfl
  | submit => exact absurd rfl (hsub _)
  | around | extend => exact hv.of_outlives (.of_records rfl) (List.Subset.refl _)
  | work hw =>
    cases hw with
    | @work t rest waiting effects =>
      have hrest : ({ v with waiting := rest } : View).Named :=
        hv.of_outlives (.of_records rfl) (waiting ▸ List.subset_cons_self _ _)
      exact hrest.of_outlives effects.steady.outlives
        (effects.steady.waiting ▸ List.Subset.refl _)
  | stop => exact absurd rfl hend

end View

namespace View

/-- Sets the static location of a record; whoever could see it under another owner before is
reconsidered. -/
def resettle (v : View) (h : Handle) (location : Option String) : View :=
  if (v.record h).owner = location ∨ (v.record h).owner = none then
    v.change h fun r => r.relocate location
  else
    (v.change h fun r => r.relocate location).enqueue (.relocate h (v.record h).owner)

end View

/-- The scope of a session that has its backends to itself. -/
def Scope.untampered : Scope := { Scope.all with tampering := False }

theorem Scope.untampered_wide : Scope.untampered.Wide := ⟨fun _ => trivial, fun _ => trivial⟩

/-- A world of one backend in memory, with nothing in it.  Without a backend the manager makes one
for itself. -/
def World.InMemory (w : World) : Prop :=
  w.storage.chain = [] ∨
    ∃ l, w.storage.chain = [l] ∧ w.storage.backend l.backend = {}

theorem World.InMemory.bare {w : World} (hw : w.InMemory) : w.Bare :=
  hw.imp_right fun ⟨l, hc, hb⟩ => ⟨l, hc, congrArg Backend.dictionaries hb⟩

namespace Session

variable {bindingsId name pid : String} {s : Session} {h : Handle}

/-- A running session that has one backend to itself, which fails at nothing and held nothing at
the start. -/
structure Unhindered (bindingsId name : String) (s : Session) : Prop where
  mirrored : s.Mirrored bindingsId name
  tidy : s.Tidy
  sound : s.storage.Sound name
  agreed : s.Agreed
  named : s.view.Named
  running : s.isRunning = true

theorem view_resettle_eq (s : Session) (h : Handle) (pid : String) (location : Option String) :
    (s.resettle h pid location).view = s.view.resettle h location := by
  unfold resettle View.resettle
  dsimp only
  rw [record_view]
  by_cases hsame : (s.record h).owner = location
  · rw [if_pos hsame, if_pos (Or.inl hsame)]
    rfl
  · rw [if_neg hsame]
    cases howner : (s.record h).owner with
    | none =>
      rw [if_neg (by simp), if_pos (Or.inr rfl), view_announce]
      rfl
    | some o =>
      rw [howner] at hsame
      rw [if_pos Option.isSome_some, if_neg (by simp [hsame]), view_schedule, view_announce]
      rfl

namespace Unhindered

theorem step (hu : s.Unhindered bindingsId name) {a : Action} (hsub : ∀ t, a ≠ .submit t)
    (hend : a ≠ .shutdown) (hback : ∀ name change, a ≠ .around (.backend name change)) :
    (s.step a).2.Unhindered bindingsId name := by
  have hspares : a.SparesStorage := by
    cases a with
    | around action =>
      cases action with
      | backend name change => exact absurd rfl (hback name change)
      | _ => trivial
    | _ => trivial
  have hstrokes : Strokes Scope.untampered s (s.step a).2 :=
    step_strokes hu.tidy Scope.untampered_wide ⟨hsub, hend, fun _ _ => trivial,
      fun name change he => absurd he (hback name change)⟩
  have hdeal := step_deal hu.tidy.filed a
  exact ⟨hu.mirrored.step_unfinished hu.tidy.filed hend hspares, hstrokes.tidy hu.tidy,
    hstrokes.sound id hu.sound, hstrokes.agreed hu.tidy hu.agreed,
    hdeal.named hsub hend hu.tidy.filed hu.named,
    (hdeal.accepting hu.tidy.filed hend).trans hu.running⟩

theorem run (hu : s.Unhindered bindingsId name) {actions : List Action}
    (hsub : ∀ t, .submit t ∉ actions) (hend : .shutdown ∉ actions)
    (hback : ∀ name change, .around (.backend name change) ∉ actions) :
    (s.run actions).Unhindered bindingsId name := by
  induction actions generalizing s with
  | nil => exact hu
  | cons a rest ih =>
    have hone := hu.step (fun t he => hsub t (he ▸ List.mem_cons_self))
      (fun he => hend (he ▸ List.mem_cons_self))
      fun name change he => hback name change (he ▸ List.mem_cons_self)
    exact ih hone (fun t hm => hsub t (List.mem_cons_of_mem a hm))
      (fun hm => hend (List.mem_cons_of_mem a hm))
      fun name change hm => hback name change (List.mem_cons_of_mem a hm)

theorem start {w : World} (hw : w.InMemory) {settings : Settings}
    (hs : start w settings = .ok s) : ∃ name, s.Unhindered settings.bindingsId name := by
  obtain ⟨name, hm⟩ := start_mirrored hw.bare hs
  have hidle : s.view.waiting = [] := by rw [start_view hs]
  refine ⟨name, hm, start_tidy hs, ?_, start_agreed hw.bare hs, fun t ht => ?_, ?_⟩
  · -- the table of bindings is written at most
    obtain ⟨rank, hchain⟩ := hm.chain
    obtain ⟨home, bindings, storage, -, hload, rfl⟩ := start_eq hs
    have hbefore : ∃ l : Link, Storage.Sound l.backend
        (if w.storage.chain.isEmpty then ownStorage else w.storage) := by
      rcases hw with hc | ⟨l, hc, hb⟩
      · rw [hc]
        exact ⟨⟨0, ""⟩, ⟨0, rfl⟩, fun _ => rfl, rfl⟩
      · rw [if_neg (by rw [hc]; exact Bool.false_ne_true)]
        exact ⟨l, ⟨l.rank, hc⟩, fun _ => by rw [hb]; rfl, by rw [hb]⟩
    obtain ⟨l, hsound⟩ := hbefore
    obtain ⟨before, hb⟩ : ∃ before, (if w.storage.chain.isEmpty then ownStorage else w.storage) =
      before := ⟨_, rfl⟩
    rw [hb] at hload hsound
    have hafter : storage.Sound l.backend := by
      have hstorage : storage = _ := (congrArg Prod.snd hload).symm
      rw [hstorage, Bindings.load]
      dsimp only
      split
      · exact hsound.persist _
      · exact hsound
    obtain ⟨rank', hchain'⟩ := hafter.chain
    rw [show storage.chain = _ from hchain] at hchain'
    cases hchain'
    exact hafter
  · rw [hidle] at ht
    exact absurd ht List.not_mem_nil
  · show s.view.accepting = true
    rw [start_view hs]

/-! ### Looking up -/

/-- What is not cached is not there. -/
theorem configuration_eq (hu : s.Unhindered bindingsId name) (pid : String) :
    s.configuration pid = (.ok (s.view.cached.get? pid), s) := by
  obtain ⟨hsame, hok⟩ := hu.mirrored.configuration_eq pid
  suffices hfound : ∃ found, (s.configuration pid).1 = .ok found by
    obtain ⟨found, hf⟩ := hfound
    exact Prod.ext (hf.trans (congrArg Except.ok (hok found hf))) hsame
  unfold configuration
  split
  · exact ⟨_, rfl⟩
  · next hc =>
    rw [hu.sound.firstHaving]
    cases hd : s.storage.held name pid with
    | none => exact ⟨none, rfl⟩
    | some d =>
      dsimp only [Option.map_some]
      rw [hu.sound.load hd]
      dsimp only
      split
      · exact ⟨none, rfl⟩
      · next hk =>
        -- a dictionary with a pid would have to be cached
        exact absurd hc (hu.mirrored.kept pid ⟨d, hd, by simpa using hk⟩)

theorem require_of_cached (hu : s.Unhindered bindingsId name)
    (hc : s.view.cached.get? pid = some h) : s.require pid = (.ok h, s) := by
  have hdel : (s.record h).deleted = false := (hu.tidy.filed.held pid h hc).2.2
  unfold require
  rw [hu.configuration_eq, hc]
  dsimp only
  rw [hdel, if_neg Bool.false_ne_true]

theorem require_of_absent (hu : s.Unhindered bindingsId name)
    (hc : s.view.cached.get? pid = none) : s.require pid = (.error (.notFound pid), s) := by
  unfold require
  rw [hu.configuration_eq, hc]

theorem getExisting_eq (hu : s.Unhindered bindingsId name) (pid : String) :
    s.getExisting pid = (.ok (s.view.cached.get? pid), s) := by
  unfold getExisting
  rw [hu.running, hu.configuration_eq]
  rfl

theorem getLocation_eq (hu : s.Unhindered bindingsId name) (pid : String) : s.getLocation pid =
    (match s.view.cached.get? pid with
      | some h => .ok (s.record h).owner
      | none => .error (.notFound pid), s) := by
  unfold getLocation
  rw [hu.running]
  cases hc : s.view.cached.get? pid with
  | none => rw [hu.require_of_absent hc]; rfl
  | some h => rw [hu.require_of_cached hc]; rfl

/-! ### Calls -/

theorem getOrCreate_of_blank {e : AdminError} (hu : s.Unhindered bindingsId name)
    (hpid : checkPid pid = .error e) (location : Option String) :
    s.getOrCreate pid location = (.error e, s) := by
  unfold getOrCreate
  rw [hu.running, hpid]
  rfl

theorem getOrCreate_of_cached (hu : s.Unhindered bindingsId name) (hpid : checkPid pid = .ok ())
    (hc : s.view.cached.get? pid = some h) (location : Option String) :
    s.getOrCreate pid location = (.ok h, s) := by
  unfold getOrCreate
  rw [hu.running, hpid, hu.configuration_eq, hc]
  rfl

/-- A new record comes without a binding. -/
theorem getOrCreate_of_absent (hu : s.Unhindered bindingsId name) (hpid : checkPid pid = .ok ())
    (hc : s.view.cached.get? pid = none) (location : Option String) :
    ∃ s', s.getOrCreate pid location = (.ok s.view.records.length, s') ∧
      s'.view = s.view.adopt
        { pid, factoryPid := none, home := name, staticLocation := location } := by
  obtain ⟨r, hr⟩ : ∃ r : Record, r =
      { pid, factoryPid := none, home := name, staticLocation := location } := ⟨_, rfl⟩
  have hunbound : s.bindings.get? pid = none := (hu.agreed.table pid).trans (bound?_of_absent hc)
  have hrestore : r.restore (s.bindings.get? pid) = r := by
    rw [hunbound, hr, Record.restore]
    split <;> rfl
  obtain ⟨storage, hstored⟩ := hu.sound.exists_store pid r.persisted
  have habsent : ({ s with storage } : Session).view.cached.get? r.pid = none := by
    rw [hr]
    exact hc
  refine ⟨(({ s with storage } : Session).keepRecord r).2, ?_, ?_⟩
  · unfold getOrCreate
    rw [hu.running, hpid, hu.configuration_eq, hc]
    dsimp only
    rw [hu.sound.primary]
    dsimp only
    rw [← hr, hrestore, hstored]
    have hnone : s.cache.record? r.pid = none := habsent
    simp only [keepRecord, Cache.adopt, enroll, hnone]
    rfl
  · rw [view_keepRecord habsent, hr]
    rfl

theorem update_of_absent (hu : s.Unhindered bindingsId name)
    (hc : s.view.cached.get? pid = none) (p : Properties) :
    s.update pid p = (.error (.notFound pid), s) := by
  unfold update
  rw [hu.running, hu.require_of_absent hc]
  rfl

theorem update_of_cached (hu : s.Unhindered bindingsId name)
    (hc : s.view.cached.get? pid = some h) (hsingle : (s.record h).factoryPid = none)
    (p : Properties) :
    ∃ s', s.update pid p = (.ok ((s.record h).counter + 1), s') ∧
      s'.view = (s.view.change h fun r => r.commit p).enqueue
        (.deliver h ((s.view.record h).counter + 1) ((s.view.record h).stamp p)) := by
  have hhome : (s.record h).home = name := hu.mirrored.homes pid h hc
  have hjoin : s.join h = (.ok (), s) := by
    unfold join
    dsimp only
    rw [hsingle]
  obtain ⟨storage, hstored⟩ := hu.sound.exists_store pid ((s.record h).persistedWith p)
  refine ⟨({ s with storage } : Session).commit h p, ?_, view_commit _ h p⟩
  unfold update
  rw [hu.running, hu.require_of_cached hc]
  dsimp only
  rw [hjoin]
  dsimp only
  rw [hhome, hstored]
  rfl

theorem delete_of_absent (hu : s.Unhindered bindingsId name)
    (hc : s.view.cached.get? pid = none) : s.delete pid = (.error (.notFound pid), s) := by
  unfold delete
  rw [hu.running, hu.require_of_absent hc]
  rfl

theorem delete_of_cached (hu : s.Unhindered bindingsId name)
    (hc : s.view.cached.get? pid = some h) :
    ∃ s', s.delete pid = (.ok (), s') ∧
      s'.view = (s.view.expunge h).enqueue (.retract h (s.view.record h).owner) := by
  have hhome : (s.record h).home = name := hu.mirrored.homes pid h hc
  have hstored : s.storage.delete name pid =
      .ok (s.storage.withBackend name ((s.storage.backend name).remove pid)) := by
    rw [Storage.delete, Backend.delete, if_pos (hu.sound.writable pid)]
    rfl
  obtain ⟨storage, hstorage⟩ : ∃ storage, s.storage.delete name pid = .ok storage := ⟨_, hstored⟩
  refine ⟨({ s with storage } : Session).discard h pid, ?_, ?_⟩
  · unfold delete
    rw [hu.running, hu.require_of_cached hc]
    dsimp only
    rw [hhome, hstorage]
    rfl
  · exact view_discard (hu.tidy.filed.held pid h hc).2.1

theorem setLocation_of_absent (hu : s.Unhindered bindingsId name)
    (hc : s.view.cached.get? pid = none) (location : Option String) :
    s.setLocation pid location = (.error (.notFound pid), s) := by
  unfold setLocation
  rw [hu.running, hu.require_of_absent hc]
  rfl

theorem setLocation_of_cached (hu : s.Unhindered bindingsId name)
    (hc : s.view.cached.get? pid = some h) (location : Option String) :
    ∃ s', s.setLocation pid location = (.ok (), s') ∧ s'.view = s.view.resettle h location := by
  have hhome : (s.record h).home = name := hu.mirrored.homes pid h hc
  obtain ⟨storage, hstorage⟩ : ∃ storage, s.storeLocation h pid location = .ok storage := by
    unfold storeLocation
    dsimp only
    split
    · exact ⟨_, rfl⟩
    · rw [hhome]
      exact hu.sound.exists_store pid _
  refine ⟨({ s with storage } : Session).resettle h pid location, ?_, ?_⟩
  · unfold setLocation
    rw [hu.running, hu.require_of_cached hc]
    dsimp only
    rw [hstorage]
    rfl
  · exact view_resettle_eq { s with storage } h pid location

end Unhindered
end Session
end Provisioning
