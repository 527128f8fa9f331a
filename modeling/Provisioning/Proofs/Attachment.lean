import Provisioning.Proofs.Administration
import Provisioning.Proofs.RecordFacts

/-! # What the hooks do

A new consumer is greeted under each of its identities: a first delivery is queued, of what the
cache holds for the identity once it was looked up.  A consumer that went away is forgotten by
the cached records, and an uninstalled provider gives its records free.
-/
namespace Provisioning

open Relation (ReflTransGen)

namespace View

/-- The greeting of a consumer under one identity.  For the members of a factory it holds what
the roster lists; without a roster there are no members to tell of. -/
inductive Greeting (c : Consumer) (identity : String) : View → View → Prop
  | single {v : View} (kind : c.kind = .single) :
    Greeting c identity v (v.enqueue (.attach c identity
      ((v.cached.get? identity).map fun h => .of h (v.record h))))
  | members {v : View} {snapshots : List Snapshot} (kind : c.kind = .factory)
    (sound : ∀ m ∈ snapshots, ∃ pid h, v.cached.get? pid = some h ∧ m = .of h (v.record h) ∧
      (v.record h).factoryPid = some identity)
    (complete : ∀ pid h, v.lists identity pid = true → v.cached.get? pid = some h →
      (v.record h).factoryPid = some identity → (v.record h).properties ≠ none →
        .of h (v.record h) ∈ snapshots)
    (distinct : (snapshots.map Snapshot.record).Nodup) :
    Greeting c identity v (v.enqueue (.attachFactory c identity snapshots))
  | unlisted {v : View} (kind : c.kind = .factory)
    (unknown : v.rosters.get? identity = none) : Greeting c identity v v

/-- The greetings of a consumer under several identities, with the look-ups before them. -/
inductive Greetings (admits : Record → Prop) (c : Consumer) : List String → View → View → Prop
  | done {v : View} : Greetings admits c [] v v
  | next {v v₁ v₂ v₃ : View} {identity : String} {rest : List String}
    (lookups : v.Lookups admits v₁) (greeting : Greeting c identity v₁ v₂)
    (others : Greetings admits c rest v₂ v₃) : Greetings admits c (identity :: rest) v v₃

/-- A dynamic binding to a location is dropped, and consumers are reconsidered. -/
inductive Release (location : String) : View → View → Prop
  | release {v : View} {h : Handle} (bound : (v.record h).isBoundTo location = true) :
    Release location v ((v.change h fun r => r.release location).enqueue
      (.relocate h (some location)))

/-- A record forgets what a consumer took. -/
inductive Forgets (service : Nat) : View → View → Prop
  | forget {v : View} {h : Handle} : Forgets service v (v.change h fun r => r.forget service)

/-- The cached records are the same, but for their dynamic bindings and marks, and work is
accepted if it was. -/
structure Alike (v v' : View) : Prop where
  cached : v'.cached = v.cached
  accepting : v'.accepting = v.accepting
  content : ∀ h, (v.record h).SameContent (v'.record h)

variable {v v' v'' : View}

theorem Alike.refl (v : View) : v.Alike v := ⟨rfl, rfl, fun _ => .refl _⟩

theorem Alike.trans (h : v.Alike v') (h' : v'.Alike v'') : v.Alike v'' :=
  ⟨h'.cached.trans h.cached, h'.accepting.trans h.accepting,
    fun i => (h.content i).trans (h'.content i)⟩

theorem alike_change {f : Record → Record} (hf : ∀ r : Record, r.SameContent (f r)) (v : View)
    (h : Handle) : v.Alike (v.change h f) := by
  refine ⟨rfl, rfl, fun i => ?_⟩
  rw [record_change]
  split
  · next he => rw [he.1]; exact hf _
  · exact .refl _

/-- What each of some steps leaves alike, all of them leave alike. -/
theorem alike_of_steps {r : View → View → Prop} (hstep : ∀ v v', r v v' → v.Alike v')
    (hr : ReflTransGen r v v') : v.Alike v' := by
  induction hr with
  | refl => exact .refl v
  | tail _ hlast ih => exact ih.trans (hstep _ _ hlast)

theorem alike_enqueue (v : View) (t : Task) : v.Alike (v.enqueue t) := by
  rw [enqueue_eq]
  exact ⟨rfl, rfl, fun _ => .refl _⟩

theorem Forgets.alike {service : Nat} (ho : Forgets service v v') : v.Alike v' := by
  cases ho with
  | forget => exact alike_change (fun r => r.sameContent_forget service) v _

theorem Release.alike {location : String} (hr : Release location v v') : v.Alike v' := by
  cases hr with
  | release =>
    exact (alike_change (fun r => r.sameContent_release location) v _).trans (alike_enqueue _ _)

end View

namespace Session

variable {admits : Record → Prop} {s : Session}

/-! ### Consumers of one configuration -/

/-- Queueing a task keeps what is known in order. -/
theorem Closed.schedule (hs : s.Closed admits) (t : Task) : (s.schedule t).Closed admits := by
  have hv : (s.schedule t).view.Filed := by
    rw [view_schedule, View.enqueue_eq]
    exact ⟨hs.filed.held, hs.filed.titled, hs.filed.distinct⟩
  exact hs.of_gainsNoConfiguration hv (.refl _) rfl fun _ => rfl

theorem Closed.attachSingle (hs : s.Closed admits) {c : Consumer} (hk : c.kind = .single)
    (pid : String) :
    ∃ v, s.view.Lookups admits v ∧ View.Greeting c pid v (s.attachSingle c pid).view ∧
      (s.attachSingle c pid).Closed admits := by
  have hf := hs.configuration_found pid
  refine ⟨(s.configuration pid).2.view, hf.lookups, ?_, ?_⟩
  · unfold Session.attachSingle
    rw [view_schedule]
    have hg : View.Greeting c pid (s.configuration pid).2.view _ := .single hk
    split
    · next h he =>
      rw [hf.ok _ he] at hg
      exact hg
    · next hne =>
      have hnone : (s.configuration pid).2.view.cached.get? pid = none := by
        cases hr : (s.configuration pid).1 with
        | error e => exact hf.error e hr
        | ok found =>
          cases found with
          | none => exact hf.ok _ hr
          | some h => exact absurd hr (hne h)
      rw [hnone] at hg
      exact hg
  · exact hf.closed.schedule _

/-! ### Members of a factory -/

/-- What a part of the roll call has found out, when the given members were called. -/
structure Called (admits : Record → Prop) (f : String) (pids : List String) (s s' : Session)
    (roll roll' : MusterRoll) : Prop extends OnlyLooksUp admits s s' where
  storage : s'.storage = s.storage
  rosters : s'.view.rosters = s.view.rosters
  named : roll'.roster.factoryPid = roll.roster.factoryPid
  distinct : roll.roster.members.Nodup → roll'.roster.members.Nodup
  others : ∀ pid, pid ∉ pids → s'.view.cached.get? pid = s.view.cached.get? pid
  grown : ∀ m ∈ roll.snapshots, m ∈ roll'.snapshots
  shrunk : ∀ pid, roll'.roster.contains pid = true → roll.roster.contains pid = true
  kept : ∀ pid, roll.roster.contains pid = true →
    roll'.roster.contains pid = true ∨ (pid ∈ pids ∧ ¬s'.view.HasMember f pid)
  sound : ∀ m ∈ roll'.snapshots, m ∈ roll.snapshots ∨ ∃ pid h,
    s'.view.cached.get? pid = some h ∧ m = .of h (s'.view.record h) ∧
      (s'.view.record h).factoryPid = some f
  complete : ∀ pid ∈ pids, ∀ h, s'.view.cached.get? pid = some h →
    (s'.view.record h).factoryPid = some f → (s'.view.record h).properties ≠ none →
      .of h (s'.view.record h) ∈ roll'.snapshots
  added : ∃ new, roll'.snapshots = roll.snapshots ++ new ∧
    (new.map Snapshot.record).Sublist (pids.filterMap fun pid => s'.view.cached.get? pid)

theorem Found.others_of_called {s' : Session} {pid : String}
    {result : Except StorageError (Option Handle)} (hf : Found admits s s' pid result) :
    ∀ pid', pid' ∉ [pid] → s'.view.cached.get? pid' = s.view.cached.get? pid' := by
  intro pid' hn
  exact hf.others pid' fun he => hn (List.mem_singleton.mpr he)

/-- A pid is passed over: it is no member, or one without properties. -/
theorem Found.passed_over {s' : Session} {f pid : String}
    {result : Except StorageError (Option Handle)} (hf : Found admits s s' pid result)
    (roll : MusterRoll)
    (hno : ∀ h, s'.view.cached.get? pid = some h → (s'.view.record h).properties = none) :
    Called admits f [pid] s s' roll roll := by
  refine ⟨hf.toOnlyLooksUp, hf.storage, hf.rosters, rfl, id, hf.others_of_called, fun _ hm => hm,
    fun _ hc => hc, fun _ hc => Or.inl hc, fun _ hm => Or.inl hm, ?_,
    [], (List.append_nil _).symm, List.nil_sublist _⟩
  intro pid' hm h hc _ hp
  rw [List.mem_singleton.mp hm] at hc
  exact absurd (hno h hc) hp

/-- A member with properties is shown. -/
theorem Found.shown {s' : Session} {f pid : String} {h : Handle}
    {result : Except StorageError (Option Handle)} (hf : Found admits s s' pid result)
    (roll : MusterRoll) (hcached : s'.view.cached.get? pid = some h)
    (hfac : (s'.view.record h).factoryPid = some f) :
    Called admits f [pid] s s' roll
      { roll with snapshots := roll.snapshots ++ [.of h (s'.view.record h)] } := by
  refine ⟨hf.toOnlyLooksUp, hf.storage, hf.rosters, rfl, id, hf.others_of_called,
    fun _ hm => List.mem_append_left _ hm, fun _ hc => hc, fun _ hc => Or.inl hc, ?_, ?_,
    [.of h (s'.view.record h)], rfl, ?_⟩
  · intro m hm
    rcases List.mem_append.mp hm with hm | hm
    · exact Or.inl hm
    · exact Or.inr ⟨pid, h, hcached, List.mem_singleton.mp hm, hfac⟩
  · intro pid' hm h' hc _ _
    rw [List.mem_singleton.mp hm, hcached] at hc
    cases hc
    exact List.mem_append_right _ List.mem_cons_self
  · rw [List.filterMap_cons_some hcached]
    exact .refl _

/-- A pid that is no member is struck off. -/
theorem Found.struck_off {s' : Session} {f pid : String}
    {result : Except StorageError (Option Handle)} (hf : Found admits s s' pid result)
    (roll : MusterRoll) (hno : ¬s'.view.HasMember f pid) :
    Called admits f [pid] s s' roll { roll with roster := roll.roster.remove pid } := by
  refine ⟨hf.toOnlyLooksUp, hf.storage, hf.rosters, rfl, fun hd => Roster.nodup_remove hd pid,
    hf.others_of_called, fun _ hm => hm, fun pid' hc => ?_, fun pid' hc => ?_,
    fun _ hm => Or.inl hm, ?_, [], (List.append_nil _).symm, List.nil_sublist _⟩
  · exact (roll.roster.contains_remove.mp hc).1
  · by_cases he : pid' = pid
    · exact Or.inr ⟨List.mem_singleton.mpr he, he ▸ hno⟩
    · exact Or.inl (roll.roster.contains_remove.mpr ⟨hc, he⟩)
  · intro pid' hm h' hc hf' _
    rw [List.mem_singleton.mp hm] at hc
    exact absurd ⟨h', hc, hf'⟩ hno

theorem Closed.muster (hs : s.Closed admits) (f : String) (roll : MusterRoll) (pid : String) :
    Called admits f [pid] s (s.muster f roll pid).2 roll (s.muster f roll pid).1 := by
  have hf := hs.configuration_found pid
  unfold Session.muster
  split
  · next e s' he =>
    rw [he] at hf
    refine hf.passed_over roll fun h hc => ?_
    rw [hf.error e rfl] at hc
    cases hc
  · next h s' he =>
    rw [he] at hf
    have hcached : s'.view.cached.get? pid = some h := hf.ok _ rfl
    dsimp only
    split
    · next hfac =>
      split
      · next hnew =>
        refine hf.passed_over roll fun h' hc => ?_
        rw [hcached] at hc
        cases hc
        exact Option.isNone_iff_eq_none.mp hnew
      · exact hf.shown roll hcached hfac
    · next hfac =>
      -- the record under the pid belongs to another factory, or to none
      refine hf.struck_off roll ?_
      rintro ⟨h', hc, hf'⟩
      rw [hcached] at hc
      cases hc
      exact hfac hf'
  · next s' he =>
    rw [he] at hf
    refine hf.struck_off roll ?_
    rintro ⟨h', hc, -⟩
    rw [hf.ok none rfl] at hc
    cases hc

/-- Between two states the members that are called do not change under one another. -/
theorem Called.next {f pid : String} {rest : List String} {s s₁ s₂ : Session}
    {roll roll₁ roll₂ : MusterRoll} (hn : pid ∉ rest)
    (h : Called admits f [pid] s s₁ roll roll₁) (h' : Called admits f rest s₁ s₂ roll₁ roll₂) :
    Called admits f (pid :: rest) s s₂ roll roll₂ := by
  have hrec : ∀ pid' i, s₁.view.cached.get? pid' = some i → s₂.view.record i = s₁.view.record i :=
    fun pid' i hi => h'.extends.record_eq (h.closed.filed.held pid' i hi).1
  refine ⟨h.toOnlyLooksUp.trans h'.toOnlyLooksUp, h'.storage.trans h.storage,
    h'.rosters.trans h.rosters,
    h'.named.trans h.named, fun hd => h'.distinct (h.distinct hd), ?_,
    fun m hm => h'.grown m (h.grown m hm), fun p hp => h.shrunk p (h'.shrunk p hp), ?_, ?_, ?_, ?_⟩
  · intro pid' hp
    rw [List.mem_cons, not_or] at hp
    rw [h'.others pid' hp.2, h.others pid' (by simpa using hp.1)]
  · intro pid' hc
    rcases h.kept pid' hc with hc | ⟨hm, hno⟩
    · exact (h'.kept pid' hc).imp_right fun hx => ⟨List.mem_cons_of_mem _ hx.1, hx.2⟩
    · refine Or.inr ⟨List.mem_cons.mpr (Or.inl (List.mem_singleton.mp hm)), ?_⟩
      rintro ⟨i, hi, hf⟩
      rw [List.mem_singleton.mp hm] at hi hno
      rw [h'.others pid hn] at hi
      exact hno ⟨i, hi, hrec pid i hi ▸ hf⟩
  · intro m hm
    rcases h'.sound m hm with hm | hm
    · rcases h.sound m hm with hm | ⟨pid', i, hi, he, hf⟩
      · exact Or.inl hm
      · refine Or.inr ⟨pid', i, h'.extends.cached pid' i hi, ?_, ?_⟩
        · rw [hrec pid' i hi]
          exact he
        · rw [hrec pid' i hi]
          exact hf
    · exact Or.inr hm
  · intro pid' hm i hi hf hp
    rcases List.mem_cons.mp hm with rfl | hm
    · rw [h'.others pid' hn] at hi
      rw [hrec pid' i hi] at hf hp ⊢
      exact h'.grown _ (h.complete pid' List.mem_cons_self i hi hf hp)
    · exact h'.complete pid' hm i hi hf hp
  · obtain ⟨new, hnew, hsub⟩ := h.added
    obtain ⟨new', hnew', hsub'⟩ := h'.added
    refine ⟨new ++ new', by rw [hnew', hnew, List.append_assoc], ?_⟩
    have hsplit : (pid :: rest).filterMap (fun pid => s₂.view.cached.get? pid) =
        [pid].filterMap (fun pid => s₁.view.cached.get? pid) ++
          rest.filterMap fun pid => s₂.view.cached.get? pid := by
      rw [List.filterMap_cons, List.filterMap_cons, h'.others pid hn]
      cases s₁.view.cached.get? pid <;> rfl
    rw [List.map_append, hsplit]
    exact hsub.append hsub'

theorem Closed.musterAll (f : String) {pids : List String} (hn : pids.Nodup) {s : Session}
    (hs : s.Closed admits) (roll : MusterRoll) :
    Called admits f pids s (Session.musterAll f pids roll s).2 roll
      (Session.musterAll f pids roll s).1 := by
  induction pids generalizing s roll with
  | nil =>
    exact ⟨hs.onlyLooksUp, rfl, rfl, rfl, id, fun _ _ => rfl, fun _ hm => hm, fun _ hc => hc,
      fun _ hc => Or.inl hc, fun _ hm => Or.inl hm, fun _ hm => absurd hm List.not_mem_nil,
      [], (List.append_nil _).symm, List.nil_sublist _⟩
  | cons pid rest ih =>
    obtain ⟨hpid, hrest⟩ := List.nodup_cons.mp hn
    have h := hs.muster f roll pid
    exact h.next hpid (ih hrest h.closed _)

/-- Whether the roster changed or not, its members are filed. -/
theorem Closed.prune (hs : s.Closed admits) {f : String} {before after : Roster}
    (hknown : s.view.rosters.get? f = some before) (hnamed : after.factoryPid = before.factoryPid)
    (hdistinct : before.members.Nodup → after.members.Nodup)
    (hkept : ∀ pid, before.contains pid = true →
      after.contains pid = true ∨ ¬s.view.HasMember f pid) :
    OnlyLooksUp admits s (s.prune before after) ∧
      ((s.prune before after).view = s.view ∨
        (s.prune before after).view = s.view.file after) := by
  have hl : s.view.Lookup admits (s.view.file after) :=
    .file (.revised hknown hnamed hdistinct hkept)
  have hf : (s.view.file after).Filed := View.Lookups.filed (.single hl) hs.filed
  unfold Session.prune
  split
  · dsimp only
    split
    · next storage hst =>
      exact ⟨⟨.single hl, hs.of_gainsNoConfiguration hf
        (storeRoster_sameStored hst).gainsNoConfiguration rfl fun _ => rfl⟩,
        Or.inr rfl⟩
    · exact ⟨⟨.single hl, hs.of_gainsNoConfiguration hf (.refl _) rfl fun _ => rfl⟩, Or.inr rfl⟩
  · exact ⟨hs.onlyLooksUp, Or.inl rfl⟩

theorem Closed.attachMembers (hs : s.Closed admits) {c : Consumer} (hk : c.kind = .factory)
    (f : String) :
    ∃ v, s.view.Lookups admits v ∧ View.Greeting c f v (s.attachMembers c f).view ∧
      (s.attachMembers c f).Closed admits := by
  obtain ⟨-, -, herr⟩ := s.factory_spec f fun _ _ => False
  unfold Session.attachMembers
  split
  · next e s' heq =>
    rw [heq] at herr
    obtain ⟨hsame, hnone⟩ := herr e rfl
    dsimp only at hsame
    rw [hsame]
    exact ⟨s.view, .refl, .unlisted hk hnone, hs⟩
  · next r s₁ heq =>
    obtain ⟨he, hknown, -⟩ := hs.factory_ok heq
    have hd := he.closed.filed.distinct f r hknown
    have hcall := he.closed.musterAll f hd { roster := r }
    dsimp only
    generalize Session.musterAll f r.members { roster := r } s₁ = result at hcall
    obtain ⟨roll, s₂⟩ := result
    have hknown₂ : s₂.view.rosters.get? f = some r := by
      rw [hcall.rosters]
      exact hknown
    obtain ⟨hprune, hview⟩ := hcall.closed.prune hknown₂ hcall.named hcall.distinct
      fun pid hc => (hcall.kept pid hc).imp_right And.right
    refine ⟨_, (he.trans (hcall.toOnlyLooksUp.trans hprune)).lookups, ?_, hprune.closed.schedule _⟩
    have hrest : (s₂.prune r roll.roster).view.cached = s₂.view.cached ∧
        ∀ i, (s₂.prune r roll.roster).view.record i = s₂.view.record i := by
      rcases hview with hv | hv
      · exact ⟨by rw [hv], fun i => by rw [hv]⟩
      · exact ⟨by rw [hv]; rfl, fun i => by rw [hv]; rfl⟩
    rw [view_schedule]
    refine .members hk (fun m hm => ?_) (fun pid i hl hc hf hp => ?_) ?_
    · rcases hcall.sound m hm with hm | ⟨pid, i, hi, heq, hf⟩
      · exact absurd hm List.not_mem_nil
      · refine ⟨pid, i, ?_, ?_, ?_⟩
        · rw [hrest.1]
          exact hi
        · rw [hrest.2]
          exact heq
        · rw [hrest.2]
          exact hf
    · rw [hrest.1] at hc
      rw [hrest.2] at hf hp ⊢
      refine hcall.complete pid ?_ i hc hf hp
      -- whoever is listed after the roll call was listed before it, and was called
      have hlisted : r.contains pid = true := by
        rcases hview with hv | hv
        · rw [hv] at hl
          simpa [View.lists, hknown₂] using hl
        · have hname : roll.roster.factoryPid = f :=
            hcall.named.trans (he.closed.filed.titled f r hknown)
          rw [hv, View.lists_file, if_pos hname.symm] at hl
          exact hcall.shrunk pid hl
      simpa [Roster.contains] using hlisted
    · obtain ⟨new, hnew, hsub⟩ := hcall.added
      rw [hnew, List.nil_append]
      -- members have different pids, and so have their records
      refine hsub.nodup (List.Pairwise.filterMap _ (fun pid pid' hne i hi i' hi' he => hne ?_) hd)
      rw [← (hcall.closed.filed.held pid i hi).2.1, ← (hcall.closed.filed.held pid' i' hi').2.1, he]

theorem Closed.attachTo (hs : s.Closed admits) (c : Consumer) (identity : String) :
    ∃ v, s.view.Lookups admits v ∧ View.Greeting c identity v (s.attachTo c identity).view ∧
      (s.attachTo c identity).Closed admits := by
  unfold Session.attachTo
  cases hk : c.kind with
  | single => exact hs.attachSingle hk identity
  | factory => exact hs.attachMembers hk identity

/-- **A new consumer is greeted under each of its identities.** -/
theorem Closed.greetings (hs : s.Closed admits) (c : Consumer) (identities : List String) :
    View.Greetings admits c identities s.view
        (identities.foldl (fun s pid => s.attachTo c pid) s).view ∧
      (identities.foldl (fun s pid => s.attachTo c pid) s).Closed admits := by
  induction identities generalizing s with
  | nil => exact ⟨.done, hs⟩
  | cons identity rest ih =>
    obtain ⟨v, hl, hg, hc⟩ := hs.attachTo c identity
    obtain ⟨hrest, hclosed⟩ := ih hc
    exact ⟨.next hl hg hrest, hclosed⟩

/-! ### Consumers and providers that are gone -/

theorem consumerWithdrawn_view (service : Nat) :
    ReflTransGen (View.Forgets service) s.view (s.consumerWithdrawn service).view := by
  unfold consumerWithdrawn
  generalize s.cache.records.values = handles
  induction handles generalizing s with
  | nil => exact .refl
  | cons h rest ih => exact .head .forget (ih (s := s.change h fun r => r.forget service))

theorem view_unbindAll (pids : List String) (s : Session) :
    (pids.foldl (fun s pid => s.assignBinding pid none) s).view = s.view := by
  induction pids generalizing s with
  | nil => rfl
  | cons pid rest ih => exact ih (s.assignBinding pid none)

theorem locationUninstalled_view (location : String) :
    ReflTransGen (View.Release location) s.view (s.locationUninstalled location).view := by
  have hrelease : ∀ (handles : List Handle) (s : Session),
      ReflTransGen (View.Release location) s.view
        (handles.foldl (fun s h => s.releaseFrom location h) s).view := by
    intro handles
    induction handles with
    | nil => exact fun _ => .refl
    | cons h rest ih =>
      intro s
      have hone : ReflTransGen (View.Release location) s.view (s.releaseFrom location h).view := by
        unfold releaseFrom
        split
        · next hb =>
          rw [view_schedule, view_announce, view_change]
          exact .single (.release hb)
        · exact .refl
      exact hone.trans (ih _)
  unfold locationUninstalled
  dsimp only
  rw [← view_unbindAll (s.bindings.boundTo location) s]
  exact hrelease _ _

end Session
end Provisioning
