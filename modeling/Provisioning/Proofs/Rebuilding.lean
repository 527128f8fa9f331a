import Provisioning.Proofs.Strokes

/-! # Rebuilding from the storage

What is read back of the dictionaries that a manager stores.  A record is rebuilt from its
dictionary, a roster from its list and the table of bindings from its pairs, and each comes out as
what was stored, up to what a dictionary cannot tell: properties with nothing in them but automatic
pids look like none at all.

A record whose properties have the key of the static location is not described.  That key is the
manager's own, and only properties that do without it can be told from it.
-/
namespace Provisioning

namespace Table

variable {fold : String → String} {α : Type}

/-- Removing a name that was new before it was written. -/
theorem erase_put {t : Table fold α} {k : String} (h : t.get? k = none) (v : α) :
    (t.put k v).erase k = t := by
  have habsent : fold k ∉ t.folded := get?_eq_none_iff.mp h
  have hrest := congrArg entries (erase_of_get?_eq_none h)
  apply ext_entries
  rw [entries_erase, entries_put, assign_of_not_mem v habsent, List.filter_append]
  rw [entries_erase] at hrest
  simp [hrest]

/-- The table of those entries whose values pass a test. -/
theorem ofList_filter (t : Table fold α) (p : α → Bool) :
    ofList (t.entries.filter fun e => p e.2) = t.keep fun _ v => p v :=
  ofList_entries (t.keep fun _ v => p v)

theorem get?_keep (t : ExactTable α) (p : α → Bool) (k : String) :
    (t.keep fun _ v => p v).get? k = (t.get? k).filter p := by
  ext v
  rw [get?_eq_some_iff, Option.filter_eq_some_iff, get?_eq_some_iff]
  exact List.mem_filter

end Table

/-! ### Rosters -/

/-- An item that nothing has to stand behind goes to the end. -/
theorem Ranked.insertBefore_end {α : Type} {behind : α → Bool} (x : α) {l : List α}
    (h : ∀ y ∈ l, behind y = false) : insertBefore behind x l = l ++ [x] := by
  induction l with
  | nil => rfl
  | cons y rest ih =>
    rw [insertBefore, h y List.mem_cons_self, if_neg Bool.false_ne_true,
      ih fun z hz => h z (List.mem_cons_of_mem y hz)]
    rfl

namespace Roster

variable (r : Roster)

theorem add_last {pid : String} (h : ∀ m ∈ r.members, m < pid) :
    r.add pid = { r with members := r.members ++ [pid] } := by
  have hnew : ¬r.contains pid = true := by
    intro hc
    exact absurd (h pid (by simpa [contains] using hc)) (String.lt_irrefl pid)
  rw [add, if_neg hnew, Ranked.insertBefore_end pid fun m hm => ?_]
  exact decide_eq_false (String.lt_asymm (h m hm))

/-- Members that are listed in order are added one behind the other. -/
theorem foldl_add {members : List String} (h : (r.members ++ members).Pairwise (· < ·)) :
    members.foldl add r = { r with members := r.members ++ members } := by
  induction members generalizing r with
  | nil => rw [List.append_nil, List.foldl_nil]
  | cons pid rest ih =>
    have hlast : ∀ m ∈ r.members, m < pid := fun m hm =>
      (List.pairwise_append.mp h).2.2 m hm pid List.mem_cons_self
    have hnext : r.members ++ pid :: rest = (r.members ++ [pid]) ++ rest :=
      (List.append_cons r.members pid rest)
    rw [List.foldl_cons, r.add_last hlast, ih _ (hnext ▸ h), hnext]

theorem listed_dictionary : listed r.dictionary = r.members := by
  have htext : Value.text? ∘ Value.text = some := funext fun _ => rfl
  unfold listed dictionary
  rw [Table.get?_put_self]
  dsimp only
  rw [Value.texts, List.filterMap_map, htext, List.filterMap_some]

/-- Members that are listed in order are read back as they are listed. -/
theorem ofList_sorted {factoryPid home : String} {members : List String}
    (h : members.Pairwise (· < ·)) :
    ofList factoryPid home members = { factoryPid, home, members } :=
  foldl_add { factoryPid, home } h

end Roster

/-! ### Records -/

namespace Properties

variable (p : Properties) (pid : String) (factoryPid : Option String)

theorem get?_stamp_other {key : String} (hpid : Text.lower key ≠ Text.lower pidKey)
    (hfactory : Text.lower key ≠ Text.lower factoryPidKey) :
    (p.stamp pid factoryPid).get? key = p.get? key := by
  unfold stamp assignText
  cases factoryPid with
  | none => rw [Table.get?_erase_of_ne _ hfactory, Table.get?_put_of_ne _ hpid]
  | some f => rw [Table.get?_put_of_ne _ hfactory, Table.get?_put_of_ne _ hpid]

theorem get?_stamp_locationKey :
    (p.stamp pid factoryPid).get? locationKey = p.get? locationKey :=
  p.get?_stamp_other pid factoryPid (by decide) (by decide)

/-- Whether there is anything beside the automatic pids. -/
def substantial : Bool := p.keys.any fun k => !isAutomaticPid k

/-- The automatic pids alone amount to nothing. -/
theorem substantial_stamp_empty : substantial (stamp .empty pid factoryPid) = false := by
  unfold substantial stamp assignText
  cases factoryPid with
  | none =>
    dsimp only
    rw [Table.keys_erase, Table.keys_put]
    decide
  | some f =>
    dsimp only
    rw [Table.keys_put, Table.keys_put, Table.folded_put]
    decide

end Properties

namespace Record

variable {r r' : Record}

/-- Properties that leave the key of the static location to the manager. -/
def Plain (r : Record) : Prop :=
  ∀ p, r.properties = some p → p.get? Properties.locationKey = none

/-- A record that was rebuilt from what was stored of another one. -/
structure Rebuilt (r r' : Record) : Prop where
  pid : r'.pid = r.pid
  factoryPid : r'.factoryPid = r.factoryPid
  unbound : r'.dynamicLocation = none
  properties : r.Plain → r'.properties = r.properties.filter Properties.substantial
  staticLocation : r.Plain → r'.staticLocation = r.staticLocation

/-- What is stored of the properties themselves. -/
def content (r : Record) : Properties := r.stamp (r.properties.getD .empty)

theorem content_substantial (hs : r.Stamped) :
    (if r.content.substantial then some r.content else none) =
      r.properties.filter Properties.substantial := by
  unfold content
  cases hp : r.properties with
  | none =>
    rw [Option.getD_none, stamp, Properties.substantial_stamp_empty]
    rfl
  | some p =>
    rw [Option.getD_some, hs p hp]
    rfl

theorem Plain.content (h : r.Plain) : r.content.get? Properties.locationKey = none := by
  rw [Record.content, stamp, Properties.get?_stamp_locationKey]
  cases hp : r.properties with
  | none => rfl
  | some p => exact h p hp

theorem get?_persisted {key : String} (h : Text.lower key ≠ Text.lower Properties.locationKey) :
    r.persisted.get? key = r.content.get? key := by
  unfold persisted dictionary
  cases r.staticLocation with
  | none => rfl
  | some l => exact Table.get?_put_of_ne _ h _

theorem Plain.location (h : r.Plain) :
    Properties.text? r.persisted Properties.locationKey = r.staticLocation := by
  unfold Properties.text? persisted dictionary
  cases r.staticLocation with
  | none => exact congrArg (Option.bind · Value.text?) h.content
  | some l =>
    dsimp only
    rw [Table.get?_put_self]
    rfl

theorem Plain.erase_persisted (h : r.Plain) :
    r.persisted.erase Properties.locationKey = r.content := by
  unfold persisted dictionary
  cases r.staticLocation with
  | none => exact Table.erase_of_get?_eq_none h.content
  | some l => exact Table.erase_put h.content _

theorem stamp_content : r.stamp r.content = r.content :=
  Properties.stamp_stamp _ _ _

theorem pid_persisted :
    Properties.text? r.persisted Properties.pidKey = some r.pid := by
  rw [Properties.text?, get?_persisted (by decide), content, stamp, Properties.get?_stamp_pidKey]
  rfl

theorem factoryPid_persisted :
    Properties.text? r.persisted Properties.factoryPidKey = r.factoryPid := by
  rw [Properties.text?, get?_persisted (by decide), content, stamp,
    Properties.get?_stamp_factoryPidKey]
  cases r.factoryPid <;> rfl

/-- What is stored of a record can be read, and stands for that record. -/
theorem ofDictionary_persisted (hs : r.Stamped) (home : String) :
    ∃ r', ofDictionary r.pid home r.persisted = .ok r' ∧ r.Rebuilt r' := by
  have hpid : (Properties.text? r.persisted Properties.pidKey).filter (· != r.pid) = none := by
    rw [pid_persisted]
    simp
  unfold ofDictionary
  rw [hpid, factoryPid_persisted]
  dsimp only
  have hcontent : r.Plain →
      (if Properties.substantial (r.persisted.erase Properties.locationKey) then
        some (r.stamp (r.persisted.erase Properties.locationKey)) else none) =
      r.properties.filter Properties.substantial := by
    intro hplain
    rw [hplain.erase_persisted, stamp_content]
    exact content_substantial hs
  split
  · next hany =>
    refine ⟨_, rfl, rfl, rfl, rfl, fun hplain => ?_, fun hplain => hplain.location⟩
    exact (if_pos hany).symm.trans (hcontent hplain)
  · next hnone =>
    refine ⟨_, rfl, rfl, rfl, rfl, fun hplain => ?_, fun hplain => hplain.location⟩
    exact (if_neg hnone).symm.trans (hcontent hplain)

end Record

/-! ### Bindings -/

namespace Table

variable {fold : String → String} {α : Type}

@[simp] theorem size_empty : (empty : Table fold α).size = 0 := rfl

theorem size_put (t : Table fold α) (k : String) (v : α) :
    (t.put k v).size = if fold k ∈ t.folded then t.size else t.size + 1 := by
  have h := congrArg List.length (t.keys_put k v)
  rw [apply_ite List.length] at h
  simpa [keys, size] using h

theorem size_putAll_le (t : Table fold α) (l : List (String × α)) :
    (t.putAll l).size ≤ t.size + l.length := by
  induction l generalizing t with
  | nil => exact Nat.le_refl _
  | cons e rest ih =>
    have hput : (t.put e.1 e.2).size ≤ t.size + 1 := by
      rw [size_put]
      split <;> omega
    rw [List.length_cons]
    exact Nat.le_trans (ih (t.put e.1 e.2)) (by omega)

theorem size_ofList_le (l : List (String × α)) : (ofList l : Table fold α).size ≤ l.length := by
  have h := size_putAll_le (empty : Table fold α) l
  rwa [size_empty, Nat.zero_add] at h

/-- Values under which none gets lost are written one behind the other. -/
theorem entries_putAll_of_size {t : Table fold α} {l : List (String × α)}
    (h : t.size + l.length ≤ (t.putAll l).size) : (t.putAll l).entries = t.entries ++ l := by
  induction l generalizing t with
  | nil => exact (List.append_nil _).symm
  | cons e rest ih =>
    have hrest := size_putAll_le (t.put e.1 e.2) rest
    have hsize : t.size + (rest.length + 1) ≤ ((t.put e.1 e.2).putAll rest).size := h
    have hput := t.size_put e.1 e.2
    split at hput
    · omega
    · next hnew =>
      have hentries : (t.put e.1 e.2).entries = t.entries ++ [e] := assign_of_not_mem e.2 hnew
      have hall : ((t.put e.1 e.2).putAll rest).entries = (t.put e.1 e.2).entries ++ rest :=
        ih (by omega)
      refine hall.trans ?_
      rw [hentries, List.append_assoc]
      rfl

theorem entries_ofList_of_size {l : List (String × α)}
    (h : l.length ≤ (ofList l : Table fold α).size) : (ofList l : Table fold α).entries = l := by
  refine entries_putAll_of_size ?_
  rwa [size_empty, Nat.zero_add]

end Table

namespace Bindings

variable {t : Bindings} {st : Storage}

/-- What is stored of a table of bindings is the table; of an empty one, perhaps nothing. -/
def Posted (t : Bindings) (st : Storage) : Prop :=
  ((st.held t.home t.id).map decode).getD [] = t.table.entries

theorem Posted.of_encode (h : st.held t.home t.id = some (encode t.table.entries)) :
    t.Posted st := by
  rw [Posted, h, Option.map_some, Option.getD_some, decode_encode]

/-- A table that can be written is written. -/
theorem posted_persist (h : (st.backend t.home).writable t.id = true) :
    t.Posted (t.persist st) := by
  have hst := Storage.store_of_writable h (encode t.table.entries)
  rw [persist, hst]
  refine .of_encode ?_
  rw [Storage.held_store hst, if_pos ⟨rfl, rfl⟩]

theorem storedPairs_eq {id home : String} (hread : id ∉ (st.backend home).unreadable) :
    storedPairs id home st = ((st.held home id).map decode).getD [] := by
  unfold storedPairs Storage.load Backend.load Backend.holds Storage.held
  rw [List.contains_eq_mem, decide_eq_false hread, Table.contains_eq_isSome]
  cases (st.backend home).dictionaries.get? id <;> rfl

/-- The table that is loaded: the bindings to locations that are still installed. -/
theorem table_load (ht : t.Posted st) (hread : t.id ∉ (st.backend t.home).unreadable)
    (installed : List String) :
    (load t.id t.home installed st).1 =
      { t with table := t.table.keep fun _ l => installed.contains l } := by
  have hpairs : storedPairs t.id t.home st = t.table.entries := (storedPairs_eq hread).trans ht
  unfold load
  rw [hpairs]
  exact congrArg (fun table => ({ t with table } : Bindings)) (t.table.ofList_filter _)

/-- What is stored after loading: the table, written back if it has lost a binding. -/
theorem storage_load (ht : t.Posted st) (hread : t.id ∉ (st.backend t.home).unreadable)
    (installed : List String) :
    (load t.id t.home installed st).2 =
      if (load t.id t.home installed st).1.table.size < t.table.size then
        (load t.id t.home installed st).1.persist st else st := by
  have hpairs : storedPairs t.id t.home st = t.table.entries := (storedPairs_eq hread).trans ht
  unfold load
  rw [hpairs]
  rfl

/-- Whatever is stored, the table that is loaded is stored then: it is written back when it has
fewer bindings than there are pairs, and when it has as many, it has the same. -/
theorem posted_load {id home : String} (hread : id ∉ (st.backend home).unreadable)
    (hwrite : (st.backend home).writable id = true) (installed : List String) :
    (load id home installed st).1.Posted (load id home installed st).2 := by
  have hpairs := storedPairs_eq hread
  unfold load
  generalize storedPairs id home st = pairs at hpairs
  dsimp only
  split
  · exact posted_persist hwrite
  · next hsize =>
    generalize hkept : (pairs.filter fun e => installed.contains e.2) = kept at hsize ⊢
    have hsub : kept.Sublist pairs := hkept ▸ List.filter_sublist
    have hle : (Table.ofList kept : ExactTable String).size ≤ kept.length :=
      Table.size_ofList_le kept
    obtain rfl : kept = pairs := hsub.eq_of_length_le (by omega)
    exact hpairs.symm.trans (Table.entries_ofList_of_size (by omega)).symm

end Bindings
end Provisioning
