import Provisioning.Proofs.TaskEffects
import Provisioning.Proofs.Strokes

/-! # The share of a pid

All configurations share one line of tasks, one list of records and one cache.  What of this belongs
to a pid is its share: its records, in the order in which they were made; which of them is cached;
and the tasks that wait for it.  The directory, the access check and the plugins are everybody's.
Records are referred to by their place among those of the pid, so that the shares of two sessions
can be compared whatever else is recorded there.

What happens to a record of the pid happens to it in the share, at its place, and what happens to
other records is not seen.  So of two sessions with the same share, to which the same happens, both
have the same share again.
-/
namespace Provisioning

/-! ### Places -/

/-- The place of a handle among those of a pid, given the pids of all records. -/
def placeOf (p : String) (pids : List String) (h : Handle) : Nat := (pids.take h).count p

section Places

variable {α : Type} {key : α → String} {p : String} {l : List α} {h : Handle}

theorem placeOf_append {pids : List String} (hle : h ≤ pids.length) (more : List String) :
    placeOf p (pids ++ more) h = placeOf p pids h := by
  rw [placeOf, List.take_append_of_le_length hle, placeOf]

theorem placeOf_length (pids more : List String) :
    placeOf p (pids ++ more) pids.length = pids.count p := by
  rw [placeOf, List.take_left]

/-- At its place there is what the handle stands for. -/
theorem getElem?_filter_placeOf {a : α} (ha : l[h]? = some a) (hp : key a = p) :
    (l.filter fun a => key a = p)[placeOf p (l.map key) h]? = some a := by
  induction l generalizing h with
  | nil => cases ha
  | cons b rest ih =>
    cases h with
    | zero =>
      obtain rfl : b = a := by simpa using ha
      rw [List.filter_cons_of_pos (by simpa using hp)]
      rfl
    | succ h =>
      have hrest := ih (h := h) (by simpa using ha)
      unfold placeOf at hrest ⊢
      rw [List.map_cons, List.take_succ_cons, List.count_cons]
      by_cases hb : key b = p
      · rw [List.filter_cons_of_pos (by simpa using hb), if_pos (by simpa using hb)]
        exact hrest
      · rw [List.filter_cons_of_neg (by simpa using hb), if_neg (by simpa using hb)]
        exact hrest

/-- What is changed elsewhere is not seen. -/
theorem filter_modify_of_ne {f : α → α} (hf : ∀ a, key (f a) = key a)
    (hne : (l.map key)[h]? ≠ some p) :
    (l.modify h f).filter (fun a => key a = p) = l.filter fun a => key a = p := by
  induction l generalizing h with
  | nil => cases h <;> rfl
  | cons b rest ih =>
    cases h with
    | zero =>
      have hb : ¬key b = p := by simpa using hne
      rw [List.modify_zero_cons, List.filter_cons_of_neg (by simpa [hf] using hb),
        List.filter_cons_of_neg (by simpa using hb)]
    | succ h =>
      have hrest := ih (h := h) (by simpa using hne)
      rw [List.modify_succ_cons, List.filter_cons, List.filter_cons, hrest]

/-- What is changed at a handle is changed at its place. -/
theorem filter_modify_of_eq {f : α → α} (hf : ∀ a, key (f a) = key a)
    (he : (l.map key)[h]? = some p) :
    (l.modify h f).filter (fun a => key a = p) =
      (l.filter fun a => key a = p).modify (placeOf p (l.map key) h) f := by
  induction l generalizing h with
  | nil => cases h <;> cases he
  | cons b rest ih =>
    cases h with
    | zero =>
      have hb : key b = p := by simpa using he
      rw [List.modify_zero_cons, List.filter_cons_of_pos (by simpa [hf] using hb),
        List.filter_cons_of_pos (by simpa using hb)]
      rfl
    | succ h =>
      have hrest := ih (h := h) (by simpa using he)
      unfold placeOf at hrest ⊢
      rw [List.modify_succ_cons, List.map_cons, List.take_succ_cons, List.count_cons]
      by_cases hb : key b = p
      · rw [List.filter_cons_of_pos (by simpa using hb),
          List.filter_cons_of_pos (by simpa using hb), if_pos (by simpa using hb),
          List.modify_succ_cons, hrest]
      · rw [List.filter_cons_of_neg (by simpa using hb),
          List.filter_cons_of_neg (by simpa using hb), if_neg (by simpa using hb), hrest]
        rfl

theorem map_modify {f : α → α} (hf : ∀ a, key (f a) = key a) (l : List α) (h : Nat) :
    (l.modify h f).map key = l.map key := by
  induction l generalizing h with
  | nil => cases h <;> rfl
  | cons b rest ih =>
    cases h with
    | zero => rw [List.modify_zero_cons, List.map_cons, List.map_cons, hf]
    | succ h => rw [List.modify_succ_cons, List.map_cons, List.map_cons, ih]

end Places

/-! ### Shares -/

/-- A task as it looks from a pid, given the pids of all records: one for a record of the pid has
the place of the record, of a first delivery for others only so much is seen as that it waits, and
other tasks are not seen. -/
def Task.seen (p : String) (pids : List String) : Task → Option Task
  | .deliver h g q => if pids[h]? = some p then some (.deliver (placeOf p pids h) g q) else none
  | .retract h owner => if pids[h]? = some p then some (.retract (placeOf p pids h) owner) else none
  | .relocate h former =>
    if pids[h]? = some p then some (.relocate (placeOf p pids h) former) else none
  | .attach c pid snapshot => some (.attach c pid (if pid = p then
      snapshot.map fun m => { m with record := placeOf p pids m.record } else none))
  | .attachFactory c f _ => some (.attachFactory c f [])

/-- A task looks the same when records are added. -/
theorem Task.seen_append {p : String} {pids : List String} {t : Task}
    (ht : ∀ h ∈ t.records, h < pids.length) (more : List String) :
    t.seen p (pids ++ more) = t.seen p pids := by
  have hone : ∀ h ∈ t.records, (pids ++ more)[h]? = pids[h]? ∧
      placeOf p (pids ++ more) h = placeOf p pids h := fun h hm =>
    ⟨List.getElem?_append_left (ht h hm), placeOf_append (Nat.le_of_lt (ht h hm)) more⟩
  cases t with
  | deliver h | retract h | relocate h =>
    obtain ⟨hpid, hplace⟩ := hone h (List.mem_singleton_self h)
    rw [Task.seen, Task.seen, hpid, hplace]
  | attach c pid snapshot =>
    cases snapshot with
    | none => rfl
    | some m =>
      obtain ⟨-, hplace⟩ := hone m.record (List.mem_singleton_self m.record)
      rw [Task.seen, Task.seen, Option.map_some, Option.map_some, hplace]
  | attachFactory => rfl

/-- What a session has for a pid. -/
structure Share where
  directory : Directory
  access : Option AccessCheck
  plugins : Pipeline
  accepting : Bool
  /-- The records of the pid, in order. -/
  records : List Record
  /-- The place of the one that is cached. -/
  cached : Option Nat
  waiting : List Task

namespace Share

variable (sh : Share)

/-- Changes the record at a place. -/
def change (i : Nat) (f : Record → Record) : Share :=
  { sh with records := sh.records.modify i f }

/-- Adds a task, if any are accepted. -/
def enqueue (t : Task) : Share :=
  { sh with waiting := if sh.accepting then sh.waiting ++ [t] else sh.waiting }

/-- Adds a record that is cached. -/
def adopt (r : Record) : Share :=
  { sh with records := sh.records ++ [r], cached := some sh.records.length }

end Share

namespace View

variable {p : String} (v : View) {h : Handle}

/-- The pids of all records. -/
def pids : List String := v.records.map Record.pid

/-- The share of a pid. -/
def share (p : String) (v : View) : Share where
  directory := v.directory
  access := v.access
  plugins := v.plugins
  accepting := v.accepting
  records := v.records.filter fun r => r.pid = p
  cached := (v.cached.get? p).map (placeOf p v.pids)
  waiting := v.waiting.filterMap (Task.seen p v.pids)

theorem pids_getElem? (hlt : h < v.records.length) : v.pids[h]? = some (v.record h).pid := by
  unfold pids record
  rw [List.getElem?_map, List.getElem?_eq_getElem hlt]
  rfl

theorem lt_of_pids (he : v.pids[h]? = some p) : h < v.records.length ∧ (v.record h).pid = p := by
  have hlt : h < v.pids.length := by
    obtain ⟨hlt, -⟩ := List.getElem?_eq_some_iff.mp he
    exact hlt
  rw [pids, List.length_map] at hlt
  rw [v.pids_getElem? hlt] at he
  exact ⟨hlt, Option.some.inj he⟩

theorem pids_ne (hne : (v.record h).pid ≠ p) (hlt : h < v.records.length) :
    v.pids[h]? ≠ some p := by
  rw [v.pids_getElem? hlt]
  exact fun he => hne (Option.some.inj he)

theorem share_record (he : v.pids[h]? = some p) :
    (v.share p).records[placeOf p v.pids h]? = some (v.record h) := by
  obtain ⟨hlt, hp⟩ := v.lt_of_pids he
  have hr : v.records[h]? = some (v.record h) := by
    unfold record
    rw [List.getElem?_eq_getElem hlt]
    rfl
  exact getElem?_filter_placeOf hr hp

@[simp] theorem pids_change {f : Record → Record} (hf : ∀ r, (f r).pid = r.pid) (h : Handle) :
    (v.change h f).pids = v.pids := map_modify hf v.records h

theorem share_change_of_ne {f : Record → Record} (hf : ∀ r, (f r).pid = r.pid)
    (hne : v.pids[h]? ≠ some p) : (v.change h f).share p = v.share p := by
  have hrecords := filter_modify_of_ne (l := v.records) hf hne
  unfold share
  rw [v.pids_change hf]
  exact congrArg (fun records => ({ v.share p with records } : Share)) hrecords

theorem share_change_of_eq {f : Record → Record} (hf : ∀ r, (f r).pid = r.pid)
    (he : v.pids[h]? = some p) :
    (v.change h f).share p = (v.share p).change (placeOf p v.pids h) f := by
  have hrecords := filter_modify_of_eq (l := v.records) hf he
  unfold share
  rw [v.pids_change hf]
  exact congrArg (fun records => ({ v.share p with records } : Share)) hrecords

theorem share_enqueue_of_none {t : Task} (ht : t.seen p v.pids = none) :
    (v.enqueue t).share p = v.share p := by
  have hseen : (v.waiting ++ [t]).filterMap (Task.seen p v.pids) =
      v.waiting.filterMap (Task.seen p v.pids) := by
    rw [List.filterMap_append, List.filterMap_cons_none ht, List.filterMap_nil, List.append_nil]
  rw [enqueue_eq]
  split
  · exact congrArg (fun waiting => ({ v.share p with waiting } : Share)) hseen
  · rfl

theorem share_enqueue_of_some {t t' : Task} (ht : t.seen p v.pids = some t') :
    (v.enqueue t).share p = (v.share p).enqueue t' := by
  have hseen : (v.waiting ++ [t]).filterMap (Task.seen p v.pids) =
      v.waiting.filterMap (Task.seen p v.pids) ++ [t'] := by
    rw [List.filterMap_append, List.filterMap_cons_some ht, List.filterMap_nil]
  rw [enqueue_eq, Share.enqueue]
  show _ = { v.share p with
    waiting := if v.accepting then (v.share p).waiting ++ [t'] else (v.share p).waiting }
  split
  · exact congrArg (fun waiting => ({ v.share p with waiting } : Share)) hseen
  · rfl

/-- Another record is changed, and what is queued then is not seen. -/
theorem share_change_enqueue_of_ne {f : Record → Record} (hf : ∀ r, (f r).pid = r.pid)
    (hne : v.pids[h]? ≠ some p) {t : Task} (ht : t.seen p v.pids = none) :
    ((v.change h f).enqueue t).share p = v.share p := by
  rw [share_enqueue_of_none, v.share_change_of_ne hf hne]
  rw [v.pids_change hf]
  exact ht

/-- A task is taken off the line; who does not see it sees no difference. -/
theorem share_pop {t : Task} {rest : List Task} (hw : v.waiting = t :: rest) :
    ({ v with waiting := rest } : View).share p = { v.share p with
      waiting := if (t.seen p v.pids).isSome then (v.share p).waiting.tail
        else (v.share p).waiting } := by
  have hseen : rest.filterMap (Task.seen p v.pids) = if (t.seen p v.pids).isSome
      then (v.waiting.filterMap (Task.seen p v.pids)).tail
      else v.waiting.filterMap (Task.seen p v.pids) := by
    rw [hw, List.filterMap_cons]
    cases t.seen p v.pids <;> rfl
  exact congrArg (fun waiting => ({ v.share p with waiting } : Share)) hseen

/-- The waiting tasks speak of records that are there. -/
def Anchored (v : View) : Prop := ∀ t ∈ v.waiting, ∀ h ∈ t.records, h < v.records.length

variable {v}

theorem share_adopt (hf : v.Filed) (hb : v.Anchored) (r : Record) :
    (v.adopt r).share p = if r.pid = p then (v.share p).adopt r else v.share p := by
  have hpids : (v.adopt r).pids = v.pids ++ [r.pid] := List.map_append
  have hlen : v.pids.length = v.records.length := List.length_map _
  have hwaiting : v.waiting.filterMap (Task.seen p (v.pids ++ [r.pid])) =
      v.waiting.filterMap (Task.seen p v.pids) :=
    List.filterMap_congr fun t ht => Task.seen_append (hlen ▸ hb t ht) _
  have hcached : ((v.adopt r).cached.get? p).map (placeOf p (v.pids ++ [r.pid])) =
      if r.pid = p then some (v.records.filter fun r => r.pid = p).length
      else (v.cached.get? p).map (placeOf p v.pids) := by
    rw [cached_adopt]
    by_cases hp : r.pid = p
    · rw [if_pos hp.symm, if_pos hp, Option.map_some, ← hlen, placeOf_length, pids,
        List.count_eq_length_filter, List.filter_map, List.length_map]
      rfl
    · rw [if_neg (Ne.symm hp), if_neg hp]
      cases hc : v.cached.get? p with
      | none => rfl
      | some h =>
        exact congrArg some (placeOf_append (hlen ▸ Nat.le_of_lt (hf.held p h hc).1) _)
  have hrecords : (v.records ++ [r]).filter (fun r => r.pid = p) =
      (v.records.filter fun r => r.pid = p) ++ if r.pid = p then [r] else [] := by
    rw [List.filter_append]
    by_cases hp : r.pid = p <;> simp [hp]
  unfold share
  rw [hpids, hcached]
  show ({ v.share p with
    records := (v.records ++ [r]).filter fun r => r.pid = p
    cached := _
    waiting := v.waiting.filterMap (Task.seen p (v.pids ++ [r.pid])) } : Share) = _
  rw [hwaiting, hrecords]
  by_cases hp : r.pid = p
  · rw [if_pos hp, if_pos hp, if_pos hp]
    rfl
  · rw [if_neg hp, if_neg hp, if_neg hp, List.append_nil]
    rfl

theorem share_expunge (h : Handle) : (v.expunge h).share p =
    { (v.change h fun r => { r with deleted := true }).share p with
      cached := if p = (v.record h).pid then none else (v.share p).cached } := by
  have hpids := v.pids_change (f := fun r => { r with deleted := true }) (fun _ => rfl) h
  have hcached : ((v.expunge h).cached.get? p).map (placeOf p v.pids) =
      if p = (v.record h).pid then none else (v.share p).cached := by
    rw [cached_expunge]
    split <;> rfl
  rw [← hcached, ← hpids]
  rfl

/-! ### Two sessions with the same share -/

/-- Two handles for the same record of a pid, in views with the same share of it. -/
structure Twins (p : String) (v w : View) (h h' : Handle) : Prop where
  own : v.pids[h]? = some p
  own' : w.pids[h']? = some p
  place : placeOf p w.pids h' = placeOf p v.pids h

theorem Twins.of_pids {v' w w' : View} {h' : Handle} (ht : Twins p v w h h')
    (hv : v'.pids = v.pids) (hw : w'.pids = w.pids) : Twins p v' w' h h' :=
  ⟨hv ▸ ht.own, hw ▸ ht.own', by rw [hv, hw, ht.place]⟩

section Pairs

variable {w : View} {h' : Handle} (hs : w.share p = v.share p)

include hs

theorem record_twins (ht : Twins p v w h h') : w.record h' = v.record h := by
  have hw := w.share_record ht.own'
  rw [hs, ht.place, v.share_record ht.own] at hw
  exact (Option.some.inj hw).symm

theorem share_change_twins (ht : Twins p v w h h') {f : Record → Record}
    (hf : ∀ r, (f r).pid = r.pid) : (w.change h' f).share p = (v.change h f).share p := by
  rw [w.share_change_of_eq hf ht.own', v.share_change_of_eq hf ht.own, hs, ht.place]

theorem share_enqueue_twins {t t' : Task} (ht : t'.seen p w.pids = t.seen p v.pids) :
    (w.enqueue t').share p = (v.enqueue t).share p := by
  cases hseen : t.seen p v.pids with
  | none =>
    rw [w.share_enqueue_of_none (ht.trans hseen), v.share_enqueue_of_none hseen, hs]
  | some x =>
    rw [w.share_enqueue_of_some (ht.trans hseen), v.share_enqueue_of_some hseen, hs]

theorem share_expunge_twins (ht : Twins p v w h h') :
    (w.expunge h').share p = (v.expunge h).share p := by
  have hchange := share_change_twins hs ht (f := fun r => { r with deleted := true })
    fun _ => rfl
  rw [share_expunge, share_expunge, hchange, record_twins hs ht, hs]

/-- The pid is cached in both or in neither, and it is the same record. -/
theorem cached_twins (hv : v.Filed) (hw : w.Filed) :
    (v.cached.get? p = none ∧ w.cached.get? p = none) ∨
      ∃ h h', v.cached.get? p = some h ∧ w.cached.get? p = some h' ∧ Twins p v w h h' := by
  have hplace : (w.cached.get? p).map (placeOf p w.pids) =
      (v.cached.get? p).map (placeOf p v.pids) := congrArg Share.cached hs
  have hown : ∀ {u : View}, u.Filed → ∀ {h}, u.cached.get? p = some h →
      u.pids[h]? = some p := by
    intro u hu h hc
    obtain ⟨hlt, hpid, -⟩ := hu.held p h hc
    rw [u.pids_getElem? hlt, hpid]
  cases hc : v.cached.get? p with
  | none =>
    rw [hc] at hplace
    exact Or.inl ⟨rfl, Option.map_eq_none_iff.mp hplace⟩
  | some h =>
    rw [hc] at hplace
    obtain ⟨h', hc', he⟩ := Option.map_eq_some_iff.mp hplace
    exact Or.inr ⟨h, h', rfl, hc', hown hv hc, hown hw hc', he⟩

end Pairs
end View
end Provisioning
