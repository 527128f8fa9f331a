import Provisioning.Proofs.Announcements
import Provisioning.Proofs.Unhindered

/-! # Two sessions in accord

Two sessions of which the second knows of one pid only: they have the same share of the pid, and in
the second nothing else is cached, and nothing waits that is not seen from the pid.  A call on the
pid is answered alike by both, and changes their shares alike.  So do the hooks: a new consumer is
queued in both, and what is forgotten or released of other records is not seen.
-/
namespace Provisioning

/-- An answer as it can be compared between sessions: the record that was answered instead of its
handle. -/
def Answer.told (s : Session) : Answer → Answer × Option Record
  | .record h => (.record (h.map fun _ => 0), h.map s.record)
  | a => (a, none)

/-- Whether an action is a call on a pid. -/
def Action.asks (p : String) : Action → Bool
  | .getOrCreate pid _ | .getExisting pid | .update pid _ | .delete pid | .setLocation pid _
  | .getLocation pid => pid == p
  | _ => false

namespace View

variable {p : String} {v w v' w' : View} {h h' : Handle}

/-- Look-ups that load nothing find rosters at most. -/
theorem Lookups.exists_rosters (hl : v.Lookups (fun _ => False) v') :
    ∃ rosters, v' = { v with rosters } := by
  refine keep_of_steps (K := fun u => ∃ rosters, u = { v with rosters }) (fun u u' hone hu => ?_) hl
    ⟨_, rfl⟩
  obtain ⟨_, rfl⟩ := hu
  cases hone with
  | adopt _ _ admitted => exact admitted.elim
  | file filing =>
    obtain ⟨rosters, rfl⟩ := filing.exists_rosters
    exact ⟨rosters, rfl⟩

/-- The same task is seen as the same. -/
theorem TwinTasks.seen {a b : Task} (ht : TwinTasks p v w a b) :
    b.seen p w.pids = a.seen p v.pids ∧ (b.seen p w.pids).isSome = true := by
  cases ht with
  | deliver twins | retract twins | relocate twins =>
    rw [Task.seen, Task.seen, if_pos twins.own, if_pos twins.own', twins.place]
    exact ⟨rfl, rfl⟩
  | greet => exact ⟨rfl, rfl⟩
  | attach twins =>
    rw [Task.seen, Task.seen, if_pos rfl, if_pos rfl, Option.map_some, Option.map_some, twins.place]
    exact ⟨rfl, rfl⟩

/-- The same share of a pid, in a view with a second one that knows of nothing else. -/
structure Accord (p : String) (v w : View) : Prop where
  share : w.share p = v.share p
  cached : ∀ pid h, w.cached.get? pid = some h → pid = p
  waiting : ∀ t ∈ w.waiting, (t.seen p w.pids).isSome = true

namespace Accord

theorem of_rosters {rosters rosters' : ExactTable Roster} (ha : Accord p v w) :
    Accord p { v with rosters } { w with rosters := rosters' } :=
  ⟨ha.share, ha.cached, ha.waiting⟩

theorem of_directory {directory : Directory} (ha : Accord p v w) :
    Accord p { v with directory } { w with directory } where
  share := congrArg (fun sh : Share => { sh with directory }) ha.share
  cached := ha.cached
  waiting := ha.waiting

theorem of_plugins {plugins : Pipeline} (ha : Accord p v w) :
    Accord p { v with plugins } { w with plugins } where
  share := congrArg (fun sh : Share => { sh with plugins }) ha.share
  cached := ha.cached
  waiting := ha.waiting

theorem lookups (ha : Accord p v w) (hl : v.Lookups (fun _ => False) v')
    (hl' : w.Lookups (fun _ => False) w') : Accord p v' w' := by
  obtain ⟨_, rfl⟩ := hl.exists_rosters
  obtain ⟨_, rfl⟩ := hl'.exists_rosters
  exact ha.of_rosters

theorem record (ha : Accord p v w) (ht : Twins p v w h h') : w.record h' = v.record h :=
  record_twins ha.share ht

theorem change (ha : Accord p v w) (ht : Twins p v w h h') {f : Record → Record}
    (hf : ∀ r, (f r).pid = r.pid) : Accord p (v.change h f) (w.change h' f) where
  share := share_change_twins ha.share ht hf
  cached := ha.cached
  waiting := by
    rw [w.pids_change hf]
    exact ha.waiting

theorem enqueue (ha : Accord p v w) {t t' : Task} (ht : t'.seen p w.pids = t.seen p v.pids)
    (hseen : (t'.seen p w.pids).isSome = true) : Accord p (v.enqueue t) (w.enqueue t') where
  share := share_enqueue_twins ha.share ht
  cached := by
    rw [enqueue_eq]
    exact ha.cached
  waiting := by
    intro u hu
    obtain ⟨queued, hqueued, hall⟩ := w.waiting_enqueue t'
    have hpids : (w.enqueue t').pids = w.pids := by rw [enqueue_eq]; rfl
    rw [hqueued] at hu
    rw [hpids]
    rcases List.mem_append.mp hu with hold | hnew
    · exact ha.waiting u hold
    · rw [hall u hnew]
      exact hseen

theorem adopt (ha : Accord p v w) (hf : v.Filed) (hf' : w.Filed) (hb : v.Anchored)
    (hb' : w.Anchored) {r : Record} (hr : r.pid = p) : Accord p (v.adopt r) (w.adopt r) where
  share := by
    rw [share_adopt hf' hb', share_adopt hf hb, ha.share]
  cached := by
    intro pid h hc
    rw [cached_adopt] at hc
    split at hc
    · next he => exact he.trans hr
    · exact ha.cached pid h hc
  waiting := by
    intro t ht
    have hpids : (w.adopt r).pids = w.pids ++ [r.pid] := List.map_append
    have hthere : ∀ h ∈ t.records, h < w.pids.length := fun h hm => by
      rw [pids, List.length_map]
      exact hb' t ht h hm
    rw [hpids, Task.seen_append hthere]
    exact ha.waiting t ht

theorem expunge (ha : Accord p v w) (ht : Twins p v w h h') :
    Accord p (v.expunge h) (w.expunge h') where
  share := share_expunge_twins ha.share ht
  cached := by
    intro pid i hc
    rw [cached_expunge] at hc
    split at hc
    · cases hc
    · exact ha.cached pid i hc
  waiting := by
    have hpids : (w.expunge h').pids = w.pids :=
      w.pids_change (f := fun r => { r with deleted := true }) (fun _ => rfl) h'
    rw [hpids]
    exact ha.waiting

/-- Nothing waits in the second one if nothing waits in the first. -/
theorem idle (ha : Accord p v w) (hw : v.waiting = []) : w.waiting = [] := by
  have hnone : w.waiting.filterMap (Task.seen p w.pids) = [] := by
    have hwaiting : (w.share p).waiting = (v.share p).waiting := congrArg Share.waiting ha.share
    refine hwaiting.trans ?_
    rw [View.share, hw]
    rfl
  refine List.eq_nil_iff_forall_not_mem.mpr fun t ht => ?_
  have hseen := ha.waiting t ht
  rw [List.filterMap_eq_nil_iff.mp hnone t ht] at hseen
  cases hseen

/-- A task that is seen waits in the second one, too. -/
theorem pop (ha : Accord p v w) {a x : Task} {rest : List Task} (hw : v.waiting = a :: rest)
    (hx : a.seen p v.pids = some x) :
    ∃ b rest', w.waiting = b :: rest' ∧ b.seen p w.pids = some x ∧
      Accord p { v with waiting := rest } { w with waiting := rest' } := by
  have hline : w.waiting.filterMap (Task.seen p w.pids) =
      x :: rest.filterMap (Task.seen p v.pids) := by
    have hwaiting : (w.share p).waiting = (v.share p).waiting := congrArg Share.waiting ha.share
    refine hwaiting.trans ?_
    rw [View.share, hw]
    exact List.filterMap_cons_some hx
  cases hw' : w.waiting with
  | nil =>
    rw [hw'] at hline
    cases hline
  | cons b rest' =>
    have hmem : ∀ t ∈ b :: rest', (t.seen p w.pids).isSome = true := hw' ▸ ha.waiting
    obtain ⟨y, hy⟩ := Option.isSome_iff_exists.mp (hmem b List.mem_cons_self)
    rw [hw', List.filterMap_cons_some hy] at hline
    obtain ⟨rfl, -⟩ := List.cons.inj hline
    refine ⟨b, rest', rfl, hy, ?_, ha.cached, fun t ht => hmem t (List.mem_cons_of_mem b ht)⟩
    rw [w.share_pop hw', v.share_pop hw, hx, hy, ha.share]

/-- The second one has worked. -/
theorem worked (ha : Accord p v w) {b : Task} (hd : TaskEffects b w w')
    (hs : w'.share p = v'.share p) : Accord p v' w' where
  share := hs
  cached := hd.steady.cached ▸ ha.cached
  waiting := by
    rw [hd.steady.waiting, hd.pids]
    exact ha.waiting

/-! ### Changes of a record -/

theorem enqueue_twins (ha : Accord p v w) {a b : Task} (ht : TwinTasks p v w a b) :
    Accord p (v.enqueue a) (w.enqueue b) := ha.enqueue ht.seen.1 ht.seen.2

theorem commit (ha : Accord p v w) (ht : Twins p v w h h') (q : Properties) :
    Accord p
      ((v.change h fun r => r.commit q).enqueue
        (.deliver h ((v.record h).counter + 1) ((v.record h).stamp q)))
      ((w.change h' fun r => r.commit q).enqueue
        (.deliver h' ((w.record h').counter + 1) ((w.record h').stamp q))) := by
  have hchange := ha.change ht (f := fun r => r.commit q) fun _ => rfl
  rw [ha.record ht]
  refine hchange.enqueue_twins (.deliver (ht.of_pids ?_ ?_) _ _)
  · exact v.pids_change (f := fun r => r.commit q) (fun _ => rfl) h
  · exact w.pids_change (f := fun r => r.commit q) (fun _ => rfl) h'

theorem discard (ha : Accord p v w) (ht : Twins p v w h h') :
    Accord p ((v.expunge h).enqueue (.retract h (v.record h).owner))
      ((w.expunge h').enqueue (.retract h' (w.record h').owner)) := by
  rw [ha.record ht]
  refine (ha.expunge ht).enqueue_twins (.retract (ht.of_pids ?_ ?_) _)
  · exact v.pids_change (f := fun r => { r with deleted := true }) (fun _ => rfl) h
  · exact w.pids_change (f := fun r => { r with deleted := true }) (fun _ => rfl) h'

theorem relocate (ha : Accord p v w) (ht : Twins p v w h h') {f : Record → Record}
    (hf : ∀ r, (f r).pid = r.pid) (former : Option String) :
    Accord p ((v.change h f).enqueue (.relocate h former))
      ((w.change h' f).enqueue (.relocate h' former)) :=
  (ha.change ht hf).enqueue_twins
    (.relocate (ht.of_pids (v.pids_change hf h) (w.pids_change hf h')) former)

theorem resettle (ha : Accord p v w) (ht : Twins p v w h h') (location : Option String) :
    Accord p (v.resettle h location) (w.resettle h' location) := by
  unfold View.resettle
  rw [ha.record ht]
  split
  · exact ha.change ht fun _ => rfl
  · exact ha.relocate ht (f := fun r => r.relocate location) (fun _ => rfl) _

end Accord
end View

namespace Session

open View

variable {p : String} {s t : Session}

/-! ### Hooks -/

/-- What is done to the cached records one after the other: what is done to others is not seen. -/
theorem accord_visits {f : Session → Handle → Session} (hf : s.view.Filed) (hf' : t.view.Filed)
    (hpids : ∀ (u : Session) (h : Handle), (f u h).view.pids = u.view.pids)
    (hother : ∀ (u : Session) (h : Handle), u.view.pids[h]? ≠ some p →
      (f u h).view.share p = u.view.share p)
    (hown : ∀ {u u' : Session} {h h' : Handle}, Accord p u.view u'.view →
      Twins p u.view u'.view h h' → Accord p (f u h).view (f u' h').view)
    (ha : Accord p s.view t.view) :
    Accord p (s.cache.records.values.foldl f s).view (t.cache.records.values.foldl f t).view := by
  have hothers : ∀ (l : List Handle) (u : Session), (∀ h ∈ l, u.view.pids[h]? ≠ some p) →
      (l.foldl f u).view.share p = u.view.share p ∧ (l.foldl f u).view.pids = u.view.pids := by
    intro l
    induction l with
    | nil => exact fun u _ => ⟨rfl, rfl⟩
    | cons h rest ih =>
      intro u hall
      obtain ⟨hshare, hsame⟩ := ih (f u h) fun i hi => by
        rw [hpids]
        exact hall i (List.mem_cons_of_mem h hi)
      exact ⟨hshare.trans (hother u h (hall h List.mem_cons_self)), hsame.trans (hpids u h)⟩
  -- a handle of the pid that is cached is cached under the pid
  have hkeyed : ∀ {u : Session}, u.view.Filed → ∀ h ∈ u.cache.records.values,
      u.view.pids[h]? = some p → u.view.cached.get? p = some h := by
    intro u hu h hm he
    obtain ⟨pid, hc⟩ := mem_values.mp hm
    obtain ⟨-, hpid, -⟩ := hu.held pid h hc
    rw [← (u.view.lt_of_pids he).2, hpid]
    exact hc
  have hnodup := values_nodup hf
  have hnodup' := values_nodup hf'
  rcases cached_twins ha.share hf hf' with ⟨hc, hc'⟩ | ⟨h, h', hc, hc', htwins⟩
  · have hnone : t.cache.records.values = [] := by
      refine List.eq_nil_iff_forall_not_mem.mpr fun i hi => ?_
      obtain ⟨pid, hi⟩ := mem_values.mp hi
      rw [ha.cached pid i hi, hc'] at hi
      cases hi
    obtain ⟨hshare, -⟩ := hothers s.cache.records.values s fun i hi he => by
      rw [hkeyed hf i hi he] at hc
      cases hc
    rw [hnone]
    exact ⟨ha.share.trans hshare.symm, ha.cached, ha.waiting⟩
  · have hone : t.cache.records.values = [h'] := by
      refine List.perm_singleton.mp ((List.perm_ext_iff_of_nodup hnodup'
        (List.nodup_singleton h')).mpr fun i => ?_)
      rw [mem_values, List.mem_singleton]
      refine ⟨fun ⟨pid, hi⟩ => ?_, fun he => ⟨p, he ▸ hc'⟩⟩
      rw [ha.cached pid i hi, hc'] at hi
      exact (Option.some.inj hi).symm
    obtain ⟨before, after, hvalues⟩ := List.append_of_mem (mem_values.mpr ⟨p, hc⟩)
    rw [hvalues] at hnodup
    have hforeign : ∀ i ∈ s.cache.records.values, i ≠ h → s.view.pids[i]? ≠ some p := by
      intro i hi hne he
      have hi := hkeyed hf i hi he
      rw [hc] at hi
      exact hne (Option.some.inj hi).symm
    have hsplit := List.nodup_append.mp hnodup
    obtain ⟨hbefore, hsame⟩ := hothers before s fun i hi => by
      refine hforeign i (hvalues ▸ List.mem_append_left _ hi) fun he => ?_
      exact hsplit.2.2 i hi h List.mem_cons_self he
    have hthere : Accord p (before.foldl f s).view t.view :=
      ⟨ha.share.trans hbefore.symm, ha.cached, ha.waiting⟩
    have hvisit := hown hthere (htwins.of_pids hsame rfl)
    obtain ⟨hafter, -⟩ := hothers after (f (before.foldl f s) h) fun i hi => by
      rw [hpids, hsame]
      refine hforeign i (hvalues ▸ List.mem_append_right _ (List.mem_cons_of_mem h hi)) fun he => ?_
      exact (List.nodup_cons.mp hsplit.2.1).1 (he ▸ hi)
    rw [hvalues, hone, List.foldl_append]
    exact ⟨hvisit.share.trans hafter.symm, hvisit.cached, hvisit.waiting⟩

theorem accord_consumerWithdrawn (hf : s.view.Filed) (hf' : t.view.Filed)
    (ha : Accord p s.view t.view) (service : Nat) :
    Accord p (s.consumerWithdrawn service).view (t.consumerWithdrawn service).view := by
  refine accord_visits (f := fun s h => s.change h fun r => r.forget service) hf hf'
    (fun u h => ?_) (fun u h hne => ?_) (fun hu htwins => ?_) ha
  · exact u.view.pids_change (f := fun r => r.forget service) (fun _ => rfl) h
  · exact u.view.share_change_of_ne (f := fun r => r.forget service) (fun _ => rfl) hne
  · exact hu.change htwins (f := fun r => r.forget service) fun _ => rfl

theorem view_releaseFrom (s : Session) (location : String) (h : Handle) :
    (s.releaseFrom location h).view =
      if (s.view.record h).isBoundTo location then
        (s.view.change h fun r => r.release location).enqueue (.relocate h (some location))
      else s.view := by
  unfold releaseFrom
  rw [record_view]
  split
  · rw [view_schedule, view_announce, view_change]
  · rfl

theorem accord_locationUninstalled (hf : s.view.Filed) (hf' : t.view.Filed)
    (ha : Accord p s.view t.view) (location : String) :
    Accord p (s.locationUninstalled location).view (t.locationUninstalled location).view := by
  have hpid : ∀ r : Record, (r.release location).pid = r.pid := fun r =>
    (r.sameContent_release location).pid
  have hbound := view_unbindAll (s.bindings.boundTo location) s
  have hbound' := view_unbindAll (t.bindings.boundTo location) t
  refine accord_visits (f := fun s h => s.releaseFrom location h) (hbound ▸ hf) (hbound' ▸ hf')
    (fun u h => ?_) (fun u h hne => ?_) (fun {u u' h h'} hu htwins => ?_)
    (by rw [hbound, hbound']; exact ha)
  · rw [view_releaseFrom]
    split
    · rw [View.enqueue_eq]
      exact u.view.pids_change hpid h
    · rfl
  · rw [view_releaseFrom]
    split
    · exact u.view.share_change_enqueue_of_ne hpid hne (if_neg hne)
    · rfl
  · rw [view_releaseFrom, view_releaseFrom, hu.record htwins]
    split
    · exact hu.relocate htwins hpid _
    · exact hu

/-- A session that loads no configuration and reads and writes whatever it wants to. -/
structure Sealed (name : String) (s : Session) : Prop where
  closed : s.Closed fun _ => False
  sound : s.storage.Sound name

variable {name : String}

/-- There is a roster, and so a first delivery is queued for all members that it lists. -/
theorem Sealed.attachMembers (hs : s.Sealed name) (c : Consumer) (f : String) :
    ∃ v snapshots, s.view.Lookups (fun _ => False) v ∧
      (s.attachMembers c f).view = v.enqueue (.attachFactory c f snapshots) := by
  obtain ⟨r, hr⟩ := exists_factory hs.sound f
  unfold Session.attachMembers
  split
  · next he =>
    rw [he] at hr
    cases hr
  · next roster s₁ he =>
    obtain ⟨hfound, hknown, -⟩ := hs.closed.factory_ok he
    have hcall := hfound.closed.musterAll f (hfound.closed.filed.distinct f roster hknown)
      { roster }
    dsimp only
    generalize Session.musterAll f roster.members { roster } s₁ = result at hcall
    obtain ⟨roll, s₂⟩ := result
    have hknown₂ : s₂.view.rosters.get? f = some roster := by
      rw [hcall.rosters]
      exact hknown
    obtain ⟨hprune, -⟩ := hcall.closed.prune hknown₂ hcall.named hcall.distinct
      fun pid hc => (hcall.kept pid hc).imp_right And.right
    exact ⟨_, _, (hfound.trans (hcall.toOnlyLooksUp.trans hprune)).lookups, view_schedule _ _⟩

theorem Sealed.attachTo (hs : s.Sealed name) (c : Consumer) (identity : String) :
    (s.attachTo c identity).Sealed name := by
  obtain ⟨-, -, -, hclosed⟩ := hs.closed.attachTo c identity
  refine ⟨hclosed, ?_⟩
  have hstrokes : Strokes Scope.untampered s (s.attachTo c identity) := by
    unfold Session.attachTo
    split
    · exact attachSingle_strokes hs.closed.filed Scope.untampered_wide c identity
    · exact attachMembers_strokes hs.closed.filed Scope.untampered_wide c identity
  exact hstrokes.sound id hs.sound

theorem Sealed.accord_attachTo (hs : s.Sealed name) (ht : t.Sealed name)
    (ha : Accord p s.view t.view) (c : Consumer) (identity : String) :
    Accord p (s.attachTo c identity).view (t.attachTo c identity).view := by
  unfold Session.attachTo
  cases hk : c.kind with
  | factory =>
    obtain ⟨v, snapshots, hl, hv⟩ := hs.attachMembers c identity
    obtain ⟨w, snapshots', hl', hw⟩ := ht.attachMembers c identity
    dsimp only
    rw [hv, hw]
    exact (ha.lookups hl hl').enqueue rfl rfl
  | single =>
    obtain ⟨v, hl, hgreet, -⟩ := hs.closed.attachSingle hk identity
    obtain ⟨w, hl', hgreet', -⟩ := ht.closed.attachSingle hk identity
    have hlooked := ha.lookups hl hl'
    dsimp only
    generalize (s.attachSingle c identity).view = v' at hgreet ⊢
    generalize (t.attachSingle c identity).view = w' at hgreet' ⊢
    cases hgreet with
    | members kind => rw [hk] at kind; cases kind
    | unlisted kind => rw [hk] at kind; cases kind
    | single =>
      cases hgreet' with
      | members kind => rw [hk] at kind; cases kind
      | unlisted kind => rw [hk] at kind; cases kind
      | single =>
        by_cases hp : identity = p
        · subst hp
          rcases cached_twins hlooked.share (hl.filed hs.closed.filed) (hl'.filed ht.closed.filed)
            with ⟨hc, hc'⟩ | ⟨h, h', hc, hc', htwins⟩
          · rw [hc, hc']
            exact hlooked.enqueue_twins (.greet c)
          · rw [hc, hc', Option.map_some, Option.map_some, hlooked.record htwins]
            exact hlooked.enqueue_twins (.attach htwins c _ _)
        · -- under another pid the consumer is seen, and not what it is told
          refine hlooked.enqueue ?_ rfl
          rw [Task.seen, Task.seen, if_neg hp, if_neg hp]

theorem Sealed.accord_consumerRegistered (hs : s.Sealed name) (ht : t.Sealed name)
    (ha : Accord p s.view t.view) (c : Consumer) :
    Accord p (s.consumerRegistered c).view (t.consumerRegistered c).view := by
  have hall : ∀ (identities : List String) {s t : Session}, s.Sealed name → t.Sealed name →
      Accord p s.view t.view → Accord p
        (identities.foldl (fun s pid => s.attachTo c pid) s).view
        (identities.foldl (fun s pid => s.attachTo c pid) t).view := by
    intro identities
    induction identities with
    | nil => exact fun _ _ ha => ha
    | cons identity rest ih =>
      exact fun hs ht ha => ih (hs.attachTo c identity) (ht.attachTo c identity)
        (hs.accord_attachTo ht ha c identity)
  have hrunning : t.isRunning = s.isRunning := congrArg Share.accepting ha.share
  unfold Session.consumerRegistered
  rw [hrunning]
  split
  · exact hall c.service.pids hs ht ha
  · exact ha

end Session

/-- The records of a pid belong to no factory. -/
def View.Single (p : String) (v : View) : Prop := ∀ r ∈ (v.share p).records, r.factoryPid = none

theorem View.Single.of_records {p : String} {v w : View} (hv : v.Single p)
    (hr : w.records = v.records) : w.Single p := by
  unfold View.Single View.share
  rw [hr]
  exact hv

theorem View.Single.of_share {p : String} {v w : View} (hv : v.Single p)
    (hs : w.share p = v.share p) : w.Single p := by
  unfold View.Single
  rw [hs]
  exact hv

theorem View.Single.record {p : String} {v : View} {h : Handle} (hv : v.Single p)
    (he : v.pids[h]? = some p) : (v.record h).factoryPid = none :=
  hv _ (List.mem_of_getElem? (v.share_record he))

theorem View.Single.of_lt {p : String} {v : View} (hv : v.Single p) :
    ∀ h < v.records.length, (v.record h).pid = p → (v.record h).factoryPid = none :=
  fun _ hlt hp => hv.record ((v.pids_getElem? hlt).trans (congrArg some hp))

namespace Session

open View

variable {bindingsId name p : String} {s t : Session}

theorem Unhindered.sealed (hs : s.Unhindered bindingsId name) : s.Sealed name :=
  ⟨⟨hs.tidy.filed, Or.inr ⟨name, hs.mirrored.toStocked⟩⟩, hs.sound⟩

theorem Unhindered.anchored (hs : s.Unhindered bindingsId name) : s.view.Anchored :=
  fun t ht => (hs.named t ht).bounded

/-- Two sessions that nothing hinders, in accord about a pid. -/
structure Concert (bindingsId name p : String) (s t : Session) : Prop where
  full : s.Unhindered bindingsId name
  alone : t.Unhindered bindingsId name
  accord : Accord p s.view t.view

/-- The same was answered, and the sessions are in accord. -/
structure Concur (p : String) (x y : Answer × Session) : Prop where
  accord : Accord p x.2.view y.2.view
  told : y.1.told y.2 = x.1.told x.2

namespace Concert

/-- The pid is cached in both sessions or in neither. -/
theorem cached (hc : Concert bindingsId name p s t) :
    (s.view.cached.get? p = none ∧ t.view.cached.get? p = none) ∨
      ∃ h h', s.view.cached.get? p = some h ∧ t.view.cached.get? p = some h' ∧
        Twins p s.view t.view h h' :=
  cached_twins hc.accord.share hc.full.tidy.filed hc.alone.tidy.filed

theorem refused (hc : Concert bindingsId name p s t) (e : AdminError) :
    Concur p (.refused e, s) (.refused e, t) :=
  ⟨hc.accord, rfl⟩

theorem getOrCreate (hc : Concert bindingsId name p s t) (location : Option String) :
    Concur p (s.step (.getOrCreate p location)) (t.step (.getOrCreate p location)) := by
  show Concur p (answering _ (s.getOrCreate p location)) (answering _ (t.getOrCreate p location))
  cases hpid : checkPid p with
  | error e =>
    rw [hc.full.getOrCreate_of_blank hpid, hc.alone.getOrCreate_of_blank hpid]
    exact hc.refused e
  | ok u =>
    rcases hc.cached with ⟨habsent, habsent'⟩ | ⟨h, h', hcached, hcached', htwins⟩
    · obtain ⟨s', hs', hview⟩ := hc.full.getOrCreate_of_absent hpid habsent location
      obtain ⟨t', ht', hview'⟩ := hc.alone.getOrCreate_of_absent hpid habsent' location
      obtain ⟨r, hr⟩ : ∃ r : Record, r =
        { pid := p, factoryPid := none, home := name, staticLocation := location } := ⟨_, rfl⟩
      rw [← hr] at hview hview'
      have hadopt := hc.accord.adopt hc.full.tidy.filed hc.alone.tidy.filed hc.full.anchored
        hc.alone.anchored (congrArg Record.pid hr)
      have hnew : s'.record s.view.records.length = r := by
        rw [← record_view, hview]
        exact s.view.record_enroll_new r
      have hnew' : t'.record t.view.records.length = r := by
        rw [← record_view, hview']
        exact t.view.record_enroll_new r
      rw [hs', ht']
      refine ⟨?_, ?_⟩
      · show Accord p s'.view t'.view
        rw [hview, hview']
        exact hadopt
      · show (Answer.record (some 0), some (t'.record _)) =
          (Answer.record (some 0), some (s'.record _))
        rw [hnew, hnew']
    · rw [hc.full.getOrCreate_of_cached hpid hcached, hc.alone.getOrCreate_of_cached hpid hcached']
      have hrecord : t.record h' = s.record h := hc.accord.record htwins
      refine ⟨hc.accord, ?_⟩
      show (Answer.record (some 0), some (t.record h')) = _
      rw [hrecord]
      rfl

theorem getExisting (hc : Concert bindingsId name p s t) :
    Concur p (s.step (.getExisting p)) (t.step (.getExisting p)) := by
  show Concur p (answering _ (s.getExisting p)) (answering _ (t.getExisting p))
  rw [hc.full.getExisting_eq, hc.alone.getExisting_eq]
  rcases hc.cached with ⟨habsent, habsent'⟩ | ⟨h, h', hcached, hcached', htwins⟩
  · rw [habsent, habsent']
    exact ⟨hc.accord, rfl⟩
  · rw [hcached, hcached']
    have hrecord : t.record h' = s.record h := hc.accord.record htwins
    refine ⟨hc.accord, ?_⟩
    show (Answer.record (some 0), some (t.record h')) = _
    rw [hrecord]
    rfl

theorem getLocation (hc : Concert bindingsId name p s t) :
    Concur p (s.step (.getLocation p)) (t.step (.getLocation p)) := by
  show Concur p (answering _ (s.getLocation p)) (answering _ (t.getLocation p))
  rw [hc.full.getLocation_eq, hc.alone.getLocation_eq]
  rcases hc.cached with ⟨habsent, habsent'⟩ | ⟨h, h', hcached, hcached', htwins⟩
  · rw [habsent, habsent']
    exact hc.refused _
  · have hrecord : t.record h' = s.record h := hc.accord.record htwins
    rw [hcached, hcached']
    dsimp only
    rw [hrecord]
    exact ⟨hc.accord, rfl⟩

theorem update (hc : Concert bindingsId name p s t) (hp : s.view.Single p) (q : Properties) :
    Concur p (s.step (.update p q)) (t.step (.update p q)) := by
  show Concur p (answering _ (s.update p q)) (answering _ (t.update p q))
  rcases hc.cached with ⟨habsent, habsent'⟩ | ⟨h, h', hcached, hcached', htwins⟩
  · rw [hc.full.update_of_absent habsent, hc.alone.update_of_absent habsent']
    exact hc.refused _
  · have hrecord : t.record h' = s.record h := hc.accord.record htwins
    have hsingle : (s.record h).factoryPid = none := hp.record htwins.own
    obtain ⟨s', hs', hview⟩ := hc.full.update_of_cached hcached hsingle q
    obtain ⟨t', ht', hview'⟩ := hc.alone.update_of_cached hcached' (hrecord ▸ hsingle) q
    rw [hs', ht', hrecord]
    refine ⟨?_, rfl⟩
    show Accord p s'.view t'.view
    rw [hview, hview']
    exact hc.accord.commit htwins q

theorem delete (hc : Concert bindingsId name p s t) :
    Concur p (s.step (.delete p)) (t.step (.delete p)) := by
  show Concur p (answering _ (s.delete p)) (answering _ (t.delete p))
  rcases hc.cached with ⟨habsent, habsent'⟩ | ⟨h, h', hcached, hcached', htwins⟩
  · rw [hc.full.delete_of_absent habsent, hc.alone.delete_of_absent habsent']
    exact hc.refused _
  · obtain ⟨s', hs', hview⟩ := hc.full.delete_of_cached hcached
    obtain ⟨t', ht', hview'⟩ := hc.alone.delete_of_cached hcached'
    rw [hs', ht']
    refine ⟨?_, rfl⟩
    show Accord p s'.view t'.view
    rw [hview, hview']
    exact hc.accord.discard htwins

theorem setLocation (hc : Concert bindingsId name p s t) (location : Option String) :
    Concur p (s.step (.setLocation p location)) (t.step (.setLocation p location)) := by
  show Concur p (answering _ (s.setLocation p location)) (answering _ (t.setLocation p location))
  rcases hc.cached with ⟨habsent, habsent'⟩ | ⟨h, h', hcached, hcached', htwins⟩
  · rw [hc.full.setLocation_of_absent habsent, hc.alone.setLocation_of_absent habsent']
    exact hc.refused _
  · obtain ⟨s', hs', hview⟩ := hc.full.setLocation_of_cached hcached location
    obtain ⟨t', ht', hview'⟩ := hc.alone.setLocation_of_cached hcached' location
    rw [hs', ht']
    refine ⟨?_, rfl⟩
    show Accord p s'.view t'.view
    rw [hview, hview']
    exact hc.accord.resettle htwins location

/-- **A call on the pid is answered alike**, and does the same. -/
theorem asked (hc : Concert bindingsId name p s t) (hp : s.view.Single p) {a : Action}
    (ha : a.asks p = true) : Concur p (s.step a) (t.step a) := by
  cases a with
  | getOrCreate pid location =>
    obtain rfl : pid = p := by simpa [Action.asks] using ha
    exact hc.getOrCreate location
  | getExisting pid =>
    obtain rfl : pid = p := by simpa [Action.asks] using ha
    exact hc.getExisting
  | update pid q =>
    obtain rfl : pid = p := by simpa [Action.asks] using ha
    exact hc.update hp q
  | delete pid =>
    obtain rfl : pid = p := by simpa [Action.asks] using ha
    exact hc.delete
  | setLocation pid location =>
    obtain rfl : pid = p := by simpa [Action.asks] using ha
    exact hc.setLocation location
  | getLocation pid =>
    obtain rfl : pid = p := by simpa [Action.asks] using ha
    exact hc.getLocation
  | createMember | members | list | consumerRegistered | consumerWithdrawn | listenerRegistered
  | listenerWithdrawn | locationUninstalled | submit | addPlugin | removePlugin | around | runUpdate
  | runNotice | shutdown => cases ha

end Concert
end Session
end Provisioning
