import Provisioning.Proofs.Work

/-! # Sessions that have their storage to themselves

A manager starts over one backend with nothing in it, and nothing happens to it but the calls of
an administrator, consumers that come and go, providers that are uninstalled, changes of the
plugins, and work.  Then nothing is ever found in the storage that is not cached, and every move
keeps what is promised to the consumers.
-/
namespace Provisioning

/-- What may happen to a session that has its storage to itself. -/
inductive Move where
  | call (action : Action) (administrative : action.isAdministrative = true)
  /-- A consumer is registered, and the manager is told. -/
  | register (kind : ConsumerKind) (location : String) (pids : List String) (ranking : Int)
  /-- A service is withdrawn, and the manager is told. -/
  | withdraw (id : Nat)
  /-- The provider of a location is uninstalled, and the manager is told. -/
  | uninstall (location : String)
  | plug (rank : Int) (target : Option String) (plugin : Plugin)
  | unplug (id : Nat)
  | work

/-- The actions that a move consists of. -/
def Move.actions (d : Directory) : Move → List Action
  | call action _ => [action]
  | register kind location pids ranking =>
    [.around (.addConsumer kind location pids ranking),
      .consumerRegistered (d.nextConsumer kind location pids ranking)]
  | withdraw id => [.around (.withdraw id), .consumerWithdrawn id]
  | uninstall location => [.around (.uninstall location), .locationUninstalled location]
  | plug rank target plugin => [.addPlugin rank target plugin]
  | unplug id => [.removePlugin id]
  | work => [.runUpdate]

/-- A world of one backend with nothing in it.  Without a backend the manager makes one for
itself. -/
def World.Bare (w : World) : Prop :=
  w.storage.chain = [] ∨
    ∃ l, w.storage.chain = [l] ∧ (w.storage.backend l.backend).dictionaries = .empty

/-- A world of one backend with nothing in it, where nothing was recorded yet.  Without a backend
the manager makes one for itself. -/
structure World.Fresh (w : World) : Prop where
  records : w.records = []
  calls : w.calls = []
  directory : w.directory.WellKept
  storage : w.storage.chain = [] ∨
    ∃ l, w.storage.chain = [l] ∧ (w.storage.backend l.backend).dictionaries = .empty

/-- An access check, if there is one, keeps nobody from what belongs to its own location. -/
def World.Courteous (w : World) : Prop := ∀ check, w.access = some check → ∀ l, check l l = true

theorem World.Courteous.permits_own {w : World} (h : w.Courteous) (l : String) :
    Visibility.permits w.access l (some l) = true := by
  unfold Visibility.permits
  dsimp only
  split
  · split
    · next check hc => exact h check hc l
    · rfl
  · exact beq_self_eq_true l

namespace Session

variable (s : Session)

/-- A session after a move. -/
def move (m : Move) : Session := s.run (m.actions s.directory)

/-- A session after some moves. -/
def moves (ms : List Move) : Session := ms.foldl move s

theorem moves_append (before after : List Move) :
    s.moves (before ++ after) = (s.moves before).moves after :=
  List.foldl_append

theorem moves_concat (before : List Move) (m : Move) :
    s.moves (before ++ [m]) = (s.moves before).move m :=
  s.moves_append before [m]

/-- The callbacks to a consumer on behalf of a record, in order. -/
def words (h : Handle) (c : Consumer) : List Call := s.calls.filter (Call.isAbout h c)

/-- The last of them. -/
def lastWord (h : Handle) (c : Consumer) : Option Call := (s.words h c).getLast?

/-- A name that is drawn for a new member is not that of a member which was deleted and is still
to be struck off its roster. -/
def Clear (m : Move) : Prop :=
  ∀ action administrative, m = .call action administrative →
    ∀ pid ∈ action.names, ∀ f, ¬s.view.Fading pid f

variable {s}

/-! ### What moves keep -/

/-- A session that has its storage to itself and keeps its promises. -/
structure Kept (late : Handle → Consumer → List Call → Prop) (s : Session) : Prop where
  stocked : ∃ name, s.Stocked name
  pledge : ∃ H, s.view.Pledge H (fun _ _ => False) late

variable {late late' : Handle → Consumer → List Call → Prop}

theorem Stocked.closed {name : String} {admits : Record → Prop} (hs : s.Stocked name)
    (hf : s.view.Filed) : s.Closed admits :=
  ⟨hf, Or.inr ⟨name, hs⟩⟩

/-- Records with properties are never admitted, so that there is nothing to load. -/
theorem Closed.stocked {fading : String → String → Prop}
    (hs : s.Closed (Record.Admissible fading)) : ∃ name, s.Stocked name := by
  refine hs.source.resolve_left fun hall => ?_
  have hblank := (hall { pid := "", factoryPid := none, home := "", counter := 1 }).blank
  cases hblank.counter

theorem Stocked.around {name : String} (hs : s.Stocked name) (directory : Directory) :
    ({ s with toWorld := { s.toWorld with directory } } : Session).Stocked name :=
  hs.of_gainsNoConfiguration (.refl _) rfl fun _ => rfl

theorem Kept.call (hs : s.Kept late) {a : Action} (ha : a.isAdministrative = true)
    (hclear : ∀ pid ∈ a.names, ∀ f, ¬s.view.Fading pid f) : (s.step a).2.Kept late := by
  obtain ⟨⟨name, hn⟩, H, hp⟩ := hs
  have hclosed : s.Closed (Record.Admissible s.view.Fading) := hn.closed hp.filed
  obtain ⟨⟨v, hl, hv⟩, hclosed'⟩ := hclosed.administrative ha fun r hb hnew =>
    ⟨hb, fun f hf => hnew.elim (fun hn => by rw [hn] at hf; cases hf)
      fun hm => hclear r.pid hm f⟩
  have hpv := hp.lookups (fun _ _ hf => hf) hl
  refine ⟨hclosed'.stocked, ?_⟩
  rcases hv with hv | hv
  · rw [hv]
    exact ⟨H, hpv⟩
  · exact hpv.amendment hv

theorem Kept.register (hs : s.Kept late) (kind : ConsumerKind) (location : String)
    (pids : List String) (ranking : Int) :
    (s.move (.register kind location pids ranking)).Kept late := by
  obtain ⟨⟨name, hn⟩, H, hp⟩ := hs
  generalize hd : (s.directory.registerConsumer kind location pids ranking).2 = d
  generalize hc : s.directory.nextConsumer kind location pids ranking = c
  have hmove : s.move (.register kind location pids ranking) =
      ({ s with toWorld := { s.toWorld with directory := d } } : Session).consumerRegistered c := by
    rw [← hd, ← hc]
    rfl
  generalize hs₁ : ({ s with toWorld := { s.toWorld with directory := d } } : Session) = s₁
    at hmove
  have hview : s₁.view = { s.view with directory := d } := by
    rw [← hs₁]
    rfl
  have hn₁ : s₁.Stocked name := hs₁ ▸ hn.around d
  -- the new consumer starts with all its identities outstanding
  have hmem : c ∈ d.consumers := by
    rw [← hd, Directory.registerConsumer_snd, hc]
    exact List.mem_append_right _ List.mem_cons_self
  have hp₁ : s₁.view.Pledge H (fun c' i => c' = c ∧ i ∈ c.service.pids) late := by
    rw [hview]
    refine hp.directory ?_ ?_ (fun c' hc' => ?_) fun _ _ hx => hx.elim
    · rw [← hd]
      exact hp.wellKept.continues_registerConsumer kind location pids ranking
    · rw [← hd]
      exact hp.wellKept.registerConsumer kind location pids ranking
    · rw [← hd, Directory.registerConsumer_snd, hc] at hc'
      rcases List.mem_append.mp hc' with hold | hnew
      · exact Or.inl hold
      · rw [List.mem_singleton.mp hnew]
        refine Or.inr ⟨?_, fun i hi => ⟨rfl, hi⟩⟩
        rw [← hc, Directory.nextConsumer_id]
        exact Nat.lt_succ_self _
  have hmem₁ : c ∈ s₁.view.directory.consumers := by
    rw [hview]
    exact hmem
  have hclosed : s₁.Closed (Record.Admissible fun _ _ => True) := hn₁.closed hp₁.filed
  obtain ⟨hg, hclosed'⟩ := hclosed.greetings c c.service.pids
  have hrun : s₁.isRunning = true := hp₁.accepting
  rw [hmove]
  unfold consumerRegistered
  rw [if_pos hrun]
  exact ⟨hclosed'.stocked, H, hp₁.greetings hg hmem₁⟩

/-- The directory goes on with the consumers that it has. -/
theorem Kept.directory (hs : s.Kept late) {d : Directory} (hd : s.directory.Continues d)
    (hk : d.WellKept) (hsame : d.consumers = s.directory.consumers) :
    ({ s with toWorld := { s.toWorld with directory := d } } : Session).Kept late := by
  obtain ⟨⟨name, hn⟩, H, hp⟩ := hs
  refine ⟨⟨name, hn.around d⟩, H, hp.directory hd hk (fun c hc => Or.inl ?_) fun _ _ hx => hx⟩
  rw [hsame] at hc
  exact hc

theorem Kept.withdrawn (hs : s.Kept late) {service : Nat}
    (hdead : ∀ c ∈ s.directory.consumers, s.directory.isLive c.service = true →
      c.service.id ≠ service) : (s.consumerWithdrawn service).Kept late := by
  obtain ⟨⟨name, hn⟩, H, hp⟩ := hs
  have hsteps := consumerWithdrawn_view (s := s) service
  have halike := View.alike_of_steps (fun _ _ ho => ho.alike) hsteps
  refine ⟨⟨name, hn.of_gainsNoConfiguration
    (s.consumerWithdrawn_sameStored service).gainsNoConfiguration halike.cached
    fun h => (halike.content h).home⟩, ?_⟩
  obtain ⟨-, hpledge⟩ := View.keep_of_steps
    (K := fun v => v.directory = s.directory ∧ ∃ H, v.Pledge H (fun _ _ => False) late)
    (fun v v' ho hK => by
      obtain ⟨hdir, H', hp'⟩ := hK
      refine ⟨?_, hp'.forgets (by rw [hdir]; exact hdead) ho⟩
      cases ho with
      | forget => exact hdir) hsteps ⟨rfl, H, hp⟩
  exact hpledge

theorem Kept.uninstalled (hs : s.Kept late) (location : String) :
    (s.locationUninstalled location).Kept late := by
  obtain ⟨⟨name, hn⟩, H, hp⟩ := hs
  have hsteps := locationUninstalled_view (s := s) location
  have halike := View.alike_of_steps (fun _ _ hr => hr.alike) hsteps
  exact ⟨⟨name, hn.of_gainsNoConfiguration
    (s.locationUninstalled_sameStored location).gainsNoConfiguration halike.cached
      fun h => (halike.content h).home⟩,
    View.keep_of_steps (K := fun v => ∃ H, v.Pledge H (fun _ _ => False) late)
      (fun v v' hr ⟨_, hv⟩ => hv.release hr) hsteps ⟨H, hp⟩⟩

/-- The service of a number is withdrawn: no live consumer has that number. -/
theorem step_withdraw {w : World} (hk : w.directory.WellKept) (id : Nat) :
    ∃ d, w.step (.withdraw id) = { w with directory := d } ∧ d.WellKept ∧
      w.directory.Continues d ∧ d.consumers = w.directory.consumers ∧
        ∀ c ∈ d.consumers, d.isLive c.service = true → c.service.id ≠ id := by
  cases hsv : w.directory.service? id with
  | none =>
    refine ⟨w.directory, by simp only [World.step, hsv], hk, .refl _, rfl, fun c hc _ he => ?_⟩
    have hown := hk.service?_of_mem hc
    rw [he, hsv] at hown
    cases hown
  | some sv =>
    refine ⟨w.directory.withdraw sv, by simp only [World.step, hsv], hk.withdraw sv,
      Directory.continues_withdraw sv, rfl, fun c hc hl he => ?_⟩
    -- the withdrawn service of the number is that of the consumer
    have hown := hk.service?_of_mem hc
    rw [he, hsv] at hown
    cases hown
    rw [Directory.not_isLive_withdraw] at hl
    cases hl

theorem Stocked.runUpdate {name : String} (hs : s.Stocked name) (hf : s.view.Filed) :
    ∃ name, s.runUpdate.Stocked name := by
  cases hw : s.view.waiting with
  | nil =>
    rw [s.runUpdate_idle hw]
    exact ⟨name, hs⟩
  | cons t rest =>
    rw [s.runUpdate_busy hw]
    have hpop : ({ s with updates := s.updates.pop } : Session).Stocked name :=
      hs.of_gainsNoConfiguration (.refl _) rfl fun _ => rfl
    have hclosed : ({ s with updates := s.updates.pop } : Session).Closed
        (Record.Admissible fun _ _ => True) := hpop.closed ⟨hf.held, hf.titled, hf.distinct⟩
    exact (hclosed.perform t).stocked

theorem Kept.plugins (hs : s.Kept late) (plugins : Pipeline) :
    ({ s with plugins } : Session).Kept late := by
  obtain ⟨⟨name, hn⟩, H, hp⟩ := hs
  have hspares : ∀ h, View.Spares h s.view { s.view with plugins } :=
    fun _ => ⟨rfl, id, rfl, rfl, rfl, fun _ ht => ht⟩
  refine ⟨⟨name, hn.of_gainsNoConfiguration (.refl _) rfl fun _ => rfl⟩, H, ?_⟩
  have hord : ({ s.view with plugins } : View).Orderly H :=
    { hp.toOrderly with
      filed := ⟨hp.filed.held, hp.filed.titled, hp.filed.distinct⟩
      sound := fun t ht => ⟨(hp.sound t ht).recalls, (hp.sound t ht).fits⟩ }
  exact ⟨hord, fun h c => (hspares h).promised (fun _ => rfl) (hp.promised h c),
    fun h c => (hspares h).withheld (hp.withheld h c),
    fun h c hk hc hl => (hspares h).heard (fun _ => rfl) (hp.heard h c hk hc hl)⟩

/-- **Every move keeps what is promised**, and work keeps it but for the greetings that come too
late. -/
theorem Kept.move (hs : s.Kept late) {m : Move} (hclear : s.Clear m)
    (hmono : ∀ h c words, late h c words → late' h c words)
    (hlate : ∀ h c, m = .work → s.view.LateGreeting h c →
      late' h c ((s.move m).words h c)) : (s.move m).Kept late' := by
  have hwiden : ∀ s' : Session, s'.Kept late → s'.Kept late' := by
    rintro s' ⟨hn, H, hp⟩
    exact ⟨hn, H, { hp with
      heard := fun h c hk hc hl => (hp.heard h c hk hc hl).late_mono (hmono h c) }⟩
  obtain ⟨H, hp⟩ := hs.pledge
  cases m with
  | call action administrative =>
    exact hwiden _ (hs.call administrative (hclear action administrative rfl))
  | register kind location pids ranking => exact hwiden _ (hs.register kind location pids ranking)
  | withdraw id =>
    refine hwiden _ ?_
    obtain ⟨d, hd, hk, hcont, hsame, hdead⟩ := step_withdraw hp.wellKept id
    show (({ s with toWorld := s.toWorld.step (.withdraw id) } :
      Session).consumerWithdrawn id).Kept late
    rw [hd]
    exact (hs.directory hcont hk hsame).withdrawn hdead
  | uninstall location =>
    refine hwiden _ (Kept.uninstalled ?_ location)
    refine hs.directory (Directory.continues_uninstall location) (hp.wellKept.uninstall location) ?_
    unfold Directory.uninstall
    split <;> rfl
  | plug rank target plugin => exact hwiden _ (hs.plugins _)
  | unplug id => exact hwiden _ (hs.plugins _)
  | work =>
    obtain ⟨name, hn⟩ := hs.stocked
    exact ⟨hn.runUpdate hp.filed, H, runUpdate_pledge hp hmono fun h c => hlate h c rfl⟩

/-! ### The beginning -/

theorem start_storage {w : World} {settings : Settings} (hs : start w settings = .ok s) :
    s.bindings.id = settings.bindingsId ∧
      (if w.storage.chain.isEmpty then ownStorage else w.storage).SameStored settings.bindingsId
        s.storage := by
  obtain ⟨home, bindings, storage, -, hload, rfl⟩ := start_eq hs
  have hsameStored := Storage.sameStored_load
    (if w.storage.chain.isEmpty then ownStorage else w.storage)
    settings.bindingsId home w.directory.installedLocations
  rw [hload] at hsameStored
  exact hsameStored

/-- A manager that starts over one empty backend, or makes one for itself, has it to itself. -/
theorem start_stocked {w : World} (hw : w.Bare) {settings : Settings}
    (hs : start w settings = .ok s) :
    ∃ name, s.Stocked name ∧ ∀ id, ¬Storage.Reserved settings.bindingsId id →
      s.storage.held name id = none := by
  obtain ⟨name, hchain, hempty⟩ : ∃ name,
      (∃ rank, (if w.storage.chain.isEmpty then ownStorage else w.storage).chain =
        [⟨rank, name⟩]) ∧ ((if w.storage.chain.isEmpty then ownStorage else w.storage).backend
          name).dictionaries = .empty := by
    rcases hw with hc | ⟨l, hc, hb⟩
    · rw [hc]
      refine ⟨"", ⟨0, rfl⟩, ?_⟩
      show (ownStorage.backend "").dictionaries = .empty
      unfold ownStorage
      rw [Storage.backend_withBackend, if_pos rfl]
    · rw [hc]
      exact ⟨l.backend, ⟨l.rank, hc⟩, hb⟩
  have hcached : s.view.cached = .empty := by rw [start_view hs]
  obtain ⟨-, hsameStored⟩ := start_storage hs
  refine ⟨name, ⟨?_, fun pid h hc => ?_, fun pid hc => ?_⟩, fun id hr => ?_⟩
  · rw [hsameStored.chain]
    exact hchain
  · rw [hcached, Table.get?_empty] at hc
    cases hc
  · obtain ⟨d, hd, -⟩ := hsameStored.configurations name pid hc
    rw [hempty, Table.get?_empty] at hd
    cases hd
  · rw [hsameStored.others name id hr, Storage.held, hempty, Table.get?_empty]

/-- A session without records promises nothing. -/
theorem pledge_of_empty {v : View} (hf : v.Filed) (hrecords : v.records = [])
    (hcached : v.cached = .empty) (hwaiting : v.waiting = []) (hcalls : v.calls = [])
    (haccepting : v.accepting = true) (hk : v.directory.WellKept)
    (hown : ∀ l, v.permits l (some l) = true) :
    v.Pledge (fun _ _ => none) (fun _ _ => False) late := by
  have hrec : ∀ h, v.record h = { pid := "", factoryPid := none, home := "" } := by
    intro h
    refine View.record_of_length_le ?_
    rw [hrecords]
    exact Nat.zero_le _
  have hunknown : ∀ h, ¬v.Known h := by
    intro h hk
    rw [View.Known, hcached, Table.get?_empty] at hk
    cases hk
  have hnone : ∀ t, t ∉ v.waiting := by
    intro t ht
    rw [hwaiting] at ht
    exact absurd ht List.not_mem_nil
  exact
    { filed := hf
      accepting := haccepting
      wellKept := hk
      own := hown
      sound := fun t ht => absurd ht (hnone t)
      called := by
        rw [hcalls]
        exact fun k hk => absurd hk List.not_mem_nil
      marked := by
        intro h id w hm
        rw [hrec] at hm
        cases hm
      current := by
        intro h _
        rw [hrec]
      unborn := fun _ _ _ => rfl
      lasting := fun _ _ _ hn => absurd rfl hn
      ordered := by
        rw [hwaiting]
        exact List.Pairwise.nil
      ahead := fun _ _ _ ht => absurd ht (hnone _)
      reached := fun h => Nat.le_of_eq (by rw [hrec])
      listed := fun h _ hk => absurd hk (hunknown h)
      unfading := fun h _ hk => absurd hk (hunknown h)
      promised := fun h _ hk => absurd hk (hunknown h)
      withheld := fun h _ hk => absurd hk (hunknown h)
      heard := fun h _ hk => absurd hk (hunknown h) }

/-- **A fresh session** has its storage to itself, and promises nothing yet. -/
theorem start_kept {w : World} {settings : Settings} (hw : w.Fresh) (hown : w.Courteous)
    (hs : start w settings = .ok s) : s.Kept fun _ _ _ => False := by
  have hview := start_view hs
  have hcached : s.view.cached = .empty := by rw [hview]
  obtain ⟨name, hstocked, -⟩ := start_stocked hw.storage hs
  refine ⟨⟨name, hstocked⟩, fun _ _ => none, pledge_of_empty (start_filed hs) ?_ hcached
    (by rw [hview]) ?_ (by rw [hview]) ?_ fun l => ?_⟩
  · rw [hview]
    exact hw.records
  · rw [hview]
    exact hw.calls
  · rw [hview]
    exact hw.directory
  · rw [View.permits, hview]
    exact hown.permits_own l

end Session
end Provisioning
