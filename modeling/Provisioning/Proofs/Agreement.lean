import Provisioning.Proofs.Moves
import Provisioning.Proofs.Writing

/-! # Records agree with the table of bindings

Which location a configuration is dynamically bound to is written down twice, in its record and in
the table of bindings.  Over one backend that was empty at the start the two say the same at any
time, whatever writes fail, until the manager is shut down: the table knows nothing of pids that
are not cached, a record with a static location is not bound, and any other is bound to what the
table says.
-/
namespace Provisioning
namespace Session

variable {scope : Scope} {s s' : Session}

/-- The location that the cached record of a pid is dynamically bound to. -/
def bound? (s : Session) (pid : String) : Option String :=
  (s.view.cached.get? pid).bind fun h => (s.record h).dynamicLocation

/-- What the table says is what the cached records say, and no record has two owners. -/
structure Agreed (s : Session) : Prop where
  table : ∀ pid, s.bindings.get? pid = s.bound? pid
  exclusive : ∀ pid h, s.view.cached.get? pid = some h → (s.record h).staticLocation ≠ none →
    (s.record h).dynamicLocation = none

theorem bound?_of_cached {pid : String} {h : Handle} (hc : s.view.cached.get? pid = some h) :
    s.bound? pid = (s.record h).dynamicLocation := by
  rw [bound?, hc, Option.bind_some]

theorem bound?_of_absent {pid : String} (hc : s.view.cached.get? pid = none) :
    s.bound? pid = none := by
  rw [bound?, hc, Option.bind_none]

namespace Agreed

/-- Neither the owners of cached records change, nor the table. -/
theorem of_owners (ha : s.Agreed) (hb : s'.bindings = s.bindings)
    (hc : s'.view.cached = s.view.cached)
    (hr : ∀ pid h, s.view.cached.get? pid = some h →
      (s'.record h).staticLocation = (s.record h).staticLocation ∧
        (s'.record h).dynamicLocation = (s.record h).dynamicLocation) : s'.Agreed where
  table := by
    intro pid
    rw [hb, ha.table, bound?, bound?, hc]
    exact Option.bind_congr fun h hh => (hr pid h hh).2.symm
  exclusive := by
    intro pid h hh
    rw [hc] at hh
    rw [(hr pid h hh).1, (hr pid h hh).2]
    exact ha.exclusive pid h hh

/-- One record changes hands, and the table is told. -/
theorem of_change (ha : s.Agreed) (ht : s.Tidy) {h : Handle} {f : Record → Record}
    {location : Option String} (hc : s.view.cached.get? (s.record h).pid = some h)
    (hv : s'.view = s.view.change h f)
    (hb : ∀ pid, s'.bindings.get? pid =
      if pid = (s.record h).pid then location else s.bindings.get? pid)
    (hd : (f (s.record h)).dynamicLocation = location)
    (hx : (f (s.record h)).staticLocation ≠ none → location = none) : s'.Agreed := by
  have hlt : h < s.view.records.length := (ht.filed.held _ h hc).1
  have hself : s'.record h = f (s.record h) := by
    rw [← record_view, hv, s.view.record_change_self hlt, record_view]
  have hother : ∀ i, i ≠ h → s'.record i = s.record i := by
    intro i hi
    rw [← record_view, hv, s.view.record_change_ne hi, record_view]
  have hcached : s'.view.cached = s.view.cached := by
    rw [hv]
    rfl
  -- another pid has another record
  have hne : ∀ pid i, pid ≠ (s.record h).pid → s.view.cached.get? pid = some i → i ≠ h := by
    rintro pid i hp hi rfl
    exact hp (ht.filed.held pid i hi).2.1.symm
  refine ⟨fun pid => ?_, fun pid i hi => ?_⟩
  · rw [hb]
    split
    · next he =>
      rw [he, bound?_of_cached (hcached ▸ hc), hself, hd]
    · next hp =>
      rw [ha.table, bound?, bound?, hcached]
      exact Option.bind_congr fun i hi => by rw [hother i (hne pid i hp hi)]
  · rw [hcached] at hi
    by_cases he : i = h
    · subst he
      rw [hself, hd]
      exact hx
    · rw [hother i he]
      exact ha.exclusive pid i hi

theorem adopt (ha : s.Agreed) (ht : s.Tidy) {r : Record}
    (absent : s.view.cached.get? r.pid = none)
    (bound : r.dynamicLocation = none ∨
      (r.staticLocation = none ∧ r.dynamicLocation = s.bindings.get? r.pid))
    (hv : s'.view = s.view.adopt r) (hb : s'.bindings = s.bindings) : s'.Agreed := by
  -- the table knows nothing of a pid that is not cached
  have hnone : s.bindings.get? r.pid = none := (ha.table r.pid).trans (bound?_of_absent absent)
  have hunbound : r.dynamicLocation = none := by
    rcases bound with hd | ⟨-, hd⟩
    · exact hd
    · rw [hd, hnone]
  have hnew : s'.record s.view.records.length = r := by
    rw [← record_view, hv]
    exact s.view.record_enroll_new r
  have hold : ∀ pid i, s.view.cached.get? pid = some i → s'.record i = s.record i := by
    intro pid i hi
    rw [← record_view, hv]
    exact s.view.record_enroll_lt (ht.filed.held pid i hi).1 r
  refine ⟨fun pid => ?_, fun pid i hi => ?_⟩
  · rw [hb, bound?, hv, View.cached_adopt]
    split
    · next he => rw [he, hnone, Option.bind_some, hnew, hunbound]
    · rw [ha.table, bound?]
      exact Option.bind_congr fun i hi => by rw [hold pid i hi]
  · rw [hv, View.cached_adopt] at hi
    split at hi
    · cases hi
      rw [hnew]
      exact fun _ => hunbound
    · rw [hold pid i hi]
      exact ha.exclusive pid i hi

theorem drop (ha : s.Agreed) {h : Handle}
    (hv : s'.view = s.view.expunge h)
    (hb : ∀ pid, s'.bindings.get? pid =
      if pid = (s.record h).pid then none else s.bindings.get? pid) : s'.Agreed := by
  have hcached : ∀ pid, s'.view.cached.get? pid =
      if pid = (s.record h).pid then none else s.view.cached.get? pid := by
    intro pid
    rw [hv]
    exact s.view.cached_expunge h pid
  have hrec : ∀ i, (s'.record i).dynamicLocation = (s.record i).dynamicLocation ∧
      (s'.record i).staticLocation = (s.record i).staticLocation := by
    intro i
    rw [← record_view, hv]
    exact ⟨s.view.record_expunge_of_eq (fun _ => rfl) h i,
      s.view.record_expunge_of_eq (fun _ => rfl) h i⟩
  refine ⟨fun pid => ?_, fun pid i hi => ?_⟩
  · rw [hb, bound?, hcached]
    split
    · rfl
    · rw [ha.table, bound?]
      exact Option.bind_congr fun i _ => (hrec i).1.symm
  · rw [hcached] at hi
    split at hi
    · cases hi
    · rw [(hrec i).1, (hrec i).2]
      exact ha.exclusive pid i hi

/-- All records that are bound to a location are released, and the table forgets them. -/
theorem vacate (ha : s.Agreed) {location : String}
    (hc : s'.view.cached = s.view.cached)
    (content : ∀ h, (s.record h).SameContent (s'.record h))
    (released : ∀ pid h, s.view.cached.get? pid = some h →
      (s'.record h).dynamicLocation = ((s.record h).release location).dynamicLocation)
    (hb : ∀ pid, s'.bindings.get? pid = (s.bindings.get? pid).filter fun l => l != location) :
    s'.Agreed := by
  have hdynamic : ∀ pid h, s.view.cached.get? pid = some h → (s'.record h).dynamicLocation =
      (s.record h).dynamicLocation.filter fun l => l != location := by
    intro pid h hh
    rw [released pid h hh, Record.release_eq]
    dsimp only
    unfold Record.isBoundTo
    cases hd : (s.record h).dynamicLocation with
    | none => simp
    | some l =>
      -- a record that is bound has no static location
      have hs : (s.record h).staticLocation = none := by
        by_contra hs
        rw [ha.exclusive pid h hh hs] at hd
        cases hd
      by_cases hl : l = location
      · simp [hs, hl, Option.filter]
      · simp [hl, Option.filter]
  refine ⟨fun pid => ?_, fun pid h hh => ?_⟩
  · rw [hb, ha.table, bound?, bound?, hc]
    cases hh : s.view.cached.get? pid with
    | none => rfl
    | some h => exact (hdynamic pid h hh).symm
  · rw [hc] at hh
    rw [hdynamic pid h hh, (content h).staticLocation]
    intro hs
    rw [ha.exclusive pid h hh hs]
    rfl

end Agreed

/-- What the table says after one binding was set or cleared. -/
theorem get?_of_put {pid : String} {location : Option String}
    (written : (s'.bindings, s'.storage) = s.bindings.put pid location s.storage)
    (pid' : String) :
    s'.bindings.get? pid' = if pid' = pid then location else s.bindings.get? pid' := by
  have hb : s'.bindings = (s.bindings.put pid location s.storage).1 := congrArg Prod.fst written
  rw [hb]
  exact s.bindings.get?_assign pid pid' location

/-- **One stroke** leaves records and table in agreement. -/
theorem Stroke.agreed (hs : Stroke scope s s') (ht : s.Tidy) (ha : s.Agreed) : s'.Agreed := by
  cases hs with
  | sameButMarks hsame =>
    exact ha.of_owners hsame.bindings hsame.cached fun _ h _ =>
      ⟨(hsame.content h).staticLocation, hsame.bound h⟩
  | adopt absent _ bound _ view same => exact ha.adopt ht absent bound view same.bindings
  | @commit h p view same =>
    have hsame : ∀ {α : Type} {q : Record → α}, (∀ r, q (Record.commit r p) = q r) →
        ∀ i, q (s'.record i) = q (s.record i) := by
      intro α q hq i
      rw [← record_view, view]
      exact s.view.record_change_of_eq hq h i
    exact ha.of_owners same.bindings (by rw [view]; rfl) fun _ i _ =>
      ⟨hsame (fun _ => rfl) i, hsame (fun _ => rfl) i⟩
  | store _ _ view bindings | remove _ _ view bindings | tamper _ view bindings =>
    exact ha.of_owners bindings (by rw [view]) fun _ h _ => by
      rw [record_of_view view]
      exact ⟨rfl, rfl⟩
  | found _ _ _ view same =>
    exact ha.of_owners same.bindings (by rw [view]; rfl) fun _ h _ => by
      rw [← record_view s', view]
      exact ⟨rfl, rfl⟩
  | enlist _ _ _ _ view bindings =>
    exact ha.of_owners bindings (by rw [view]; rfl) fun _ h _ => by
      rw [← record_view s', view]
      exact ⟨rfl, rfl⟩
  | lag _ _ _ view same =>
    exact ha.of_owners same.bindings (by rw [view]; rfl) fun _ h _ => by
      rw [← record_view s', view]
      exact ⟨rfl, rfl⟩
  | @bind h location _ minds undeleted unowned view written =>
    have hstatic : (s.record h).staticLocation = none ∧ (s.record h).dynamicLocation = none := by
      simpa [Record.owner] using unowned
    have hbound : (s.record h).bind location =
        { s.record h with dynamicLocation := some location } := by
      simp [Record.bind, unowned]
    refine ha.of_change ht (minds.2 undeleted) view (get?_of_put written) ?_ fun hs => ?_
    · rw [hbound]
    · rw [hbound] at hs
      exact absurd hstatic.1 hs
  | @settle h location _ cached view written =>
    exact ha.of_change ht cached view (get?_of_put written) rfl fun _ => rfl
  | drop _ cached view written => exact ha.drop view (get?_of_put written)
  | @vacate location _ cached _ _ _ content released written =>
    refine ha.vacate cached content released fun pid => ?_
    have hb : s'.bindings = (Bindings.withdrawAll (s.bindings.boundTo location)
        (s.bindings, s.storage)).1 := congrArg Prod.fst written
    rw [hb]
    exact s.bindings.get?_withdrawAll_boundTo location s.storage pid
  | queue _ view same =>
    exact ha.of_owners same.bindings (by rw [view, View.enqueue_eq]) fun _ h _ => by
      rw [← record_view s', view, View.record_enqueue]
      exact ⟨rfl, rfl⟩

theorem Strokes.agreed (hs : Strokes scope s s') (ht : s.Tidy) (ha : s.Agreed) : s'.Agreed := by
  induction hs with
  | refl => exact ha
  | tail hbefore hlast ih => exact hlast.agreed (Strokes.tidy hbefore ht) ih

/-! ### From the start on -/

/-- Over one backend with nothing in it no bindings are remembered. -/
theorem start_unbound {w : World} (hw : w.Bare) {settings : Settings}
    (hs : start w settings = .ok s) (pid : String) : s.bindings.get? pid = none := by
  obtain ⟨home, bindings, storage, hhome, hload, rfl⟩ := start_eq hs
  have hempty : ((if w.storage.chain.isEmpty then ownStorage else w.storage).backend
      home).dictionaries = .empty := by
    rcases hw with hc | ⟨l, hc, hb⟩
    · rw [hc] at hhome ⊢
      cases hhome
      show (ownStorage.backend "").dictionaries = .empty
      rw [ownStorage, Storage.backend_withBackend, if_pos rfl]
    · rw [hc] at hhome ⊢
      rw [List.isEmpty_cons, if_neg Bool.false_ne_true, Storage.primary, hc] at hhome
      cases hhome
      exact hb
  have hpairs : Bindings.storedPairs settings.bindingsId home
      (if w.storage.chain.isEmpty then ownStorage else w.storage) = [] := by
    rw [Bindings.storedPairs, if_neg]
    rw [Backend.holds, hempty]
    exact Bool.false_ne_true
  have htable : bindings = (Bindings.load settings.bindingsId home
      w.directory.installedLocations (if w.storage.chain.isEmpty then ownStorage
        else w.storage)).1 := (congrArg Prod.fst hload).symm
  show bindings.get? pid = none
  rw [htable, Bindings.load, hpairs]
  rfl

theorem start_agreed {w : World} (hw : w.Bare) {settings : Settings}
    (hs : start w settings = .ok s) : s.Agreed := by
  have hnone : ∀ pid, s.view.cached.get? pid = none := by
    intro pid
    rw [start_view hs]
    rfl
  refine ⟨fun pid => ?_, fun pid h hh => ?_⟩
  · rw [start_unbound hw hs, bound?_of_absent (hnone pid)]
  · rw [hnone] at hh
    cases hh

/-- **Records agree with the table of bindings.**  Over one backend that was empty at the start,
whatever happens to it and to the manager up to the end, in any order: a pid in the table is that
of a cached record, which was not deleted; and of every cached record, either it has a static
location, and neither its record nor the table has a binding for it, or both have the same one, or
none. -/
theorem bindings_agree_with_records {w : World} (hw : w.Bare) {settings : Settings}
    (hs : start w settings = .ok s) {actions : List Action}
    (hsub : ∀ t, .submit t ∉ actions) (hend : .shutdown ∉ actions) :
    (∀ pid location, (s.run actions).bindings.get? pid = some location →
      ∃ h, (s.run actions).cache.record? pid = some h ∧
        ((s.run actions).record h).pid = pid ∧ ((s.run actions).record h).deleted = false) ∧
    ∀ pid h, (s.run actions).cache.record? pid = some h →
      (((s.run actions).record h).staticLocation ≠ none →
        ((s.run actions).record h).dynamicLocation = none ∧
          (s.run actions).bindings.get? pid = none) ∧
      (((s.run actions).record h).staticLocation = none →
        ((s.run actions).record h).dynamicLocation = (s.run actions).bindings.get? pid) := by
  have hwithin : ∀ a ∈ actions, Within Scope.all a := by
    refine fun a ha => ⟨?_, ?_, fun _ _ => trivial, fun _ _ _ => trivial⟩
    · rintro t rfl
      exact hsub t ha
    · rintro rfl
      exact hend ha
  have htidy := start_tidy hs
  have hstrokes := run_strokes htidy ⟨fun _ => trivial, fun _ => trivial⟩ hwithin
  have hagreed := hstrokes.agreed htidy (start_agreed hw hs)
  refine ⟨fun pid location hl => ?_, fun pid h hc => ?_⟩
  · rw [hagreed.table, bound?, Option.bind_eq_some_iff] at hl
    obtain ⟨h, hc, -⟩ := hl
    obtain ⟨-, hpid, hundeleted⟩ := (hstrokes.tidy htidy).filed.held pid h hc
    exact ⟨h, hc, hpid, hundeleted⟩
  · have htable : (s.run actions).bindings.get? pid =
        ((s.run actions).record h).dynamicLocation := by
      rw [hagreed.table, bound?_of_cached hc]
    refine ⟨fun hstatic => ?_, fun _ => htable.symm⟩
    have hunbound := hagreed.exclusive pid h hc hstatic
    exact ⟨hunbound, htable.trans hunbound⟩

/-- A record is bound by its first delivery, while all writes fail. -/
def boundUnstored : List Action :=
  [.around (.addConsumer .single "here" ["pid"] 0), .getOrCreate "pid" none,
    .update "pid" .empty, .around (.backend "" fun b => { b with failing := true }), .runUpdate]

/-- The table has what the record has, though nothing of it is stored. -/
theorem bindings_agree_with_records_unstored :
    ∃ s, World.Bare {} ∧ start {} {} = .ok s ∧ (∀ t, .submit t ∉ boundUnstored) ∧
      .shutdown ∉ boundUnstored ∧ (s.run boundUnstored).cache.record? "pid" = some 0 ∧
      ((s.run boundUnstored).record 0).dynamicLocation = some "here" ∧
      (s.run boundUnstored).bindings.get? "pid" = some "here" ∧
      (s.run boundUnstored).storage.held "" (s.run boundUnstored).bindings.id = none := by
  have hw : World.Bare {} := Or.inl rfl
  obtain ⟨s, hs⟩ : ∃ s, start {} {} = .ok s := ⟨_, rfl⟩
  have hsub : ∀ t, .submit t ∉ boundUnstored := by simp [boundUnstored]
  have hend : .shutdown ∉ boundUnstored := by simp [boundUnstored]
  have hall : (s.run boundUnstored).cache.record? "pid" = some 0 ∧
      ((s.run boundUnstored).record 0).staticLocation = none ∧
      ((s.run boundUnstored).record 0).dynamicLocation = some "here" ∧
      (s.run boundUnstored).storage.held "" (s.run boundUnstored).bindings.id = none := by
    cases hs
    decide
  obtain ⟨hcached, hstatic, hdynamic, hunstored⟩ := hall
  obtain ⟨-, hboth⟩ := bindings_agree_with_records hw hs hsub hend
  have hsame := (hboth "pid" 0 hcached).2 hstatic
  exact ⟨s, hw, hs, hsub, hend, hcached, hdynamic, hsame.symm.trans hdynamic, hunstored⟩

end Session
end Provisioning
