import Mathlib.Data.List.Induction
import Mathlib.Order.Bounds.Basic
import Provisioning.Properties

/-! # Tables and their histories

A table is made by writing and removing, one after the other, and it says no more than that
history does.  Of a name there matter only the times at which it was written, under whatever
spelling, and not removed since (`standing`): the first of them gives the entry its spelling and its
place, the last gives it its value.  The main statement says this of properties, whose names are
keys that ignore case.
-/
namespace Provisioning

variable {fold : String → String} {α : Type}

namespace Table

/-! ### Operations that answer -/

/-- Writes a value under a name, in place of the one that is there, and gives that one back. -/
def exchange (fold : String → String) (k : String) (v : α) :
    List (String × α) → Option α × List (String × α)
  | [] => (none, [(k, v)])
  | e :: rest =>
    if fold e.1 = fold k then (some e.2, (e.1, v) :: rest)
    else ((exchange fold k v rest).1, e :: (exchange fold k v rest).2)

/-- Takes a name out, with its value. -/
def withdraw (fold : String → String) (k : String) :
    List (String × α) → Option α × List (String × α)
  | [] => (none, [])
  | e :: rest =>
    if fold e.1 = fold k then (some e.2, rest)
    else ((withdraw fold k rest).1, e :: (withdraw fold k rest).2)

theorem exchange_eq (k : String) (v : α) (l : List (String × α)) :
    exchange fold k v l = ((find? fold k l).map Prod.snd, assign fold k v l) := by
  induction l with
  | nil => rfl
  | cons e rest ih =>
    by_cases h : fold e.1 = fold k
    · simp [exchange, find?, assign, h]
    · simp [exchange, find?, assign, h, ih]

/-- The name is taken out where it is met first, and it is met only once. -/
theorem withdraw_eq (k : String) {l : List (String × α)}
    (hd : (l.map fun e => fold e.1).Nodup) :
    withdraw fold k l =
      ((find? fold k l).map Prod.snd, l.filter fun e => !(fold e.1 == fold k)) := by
  induction l with
  | nil => rfl
  | cons e rest ih =>
    rw [List.map_cons, List.nodup_cons] at hd
    by_cases h : fold e.1 = fold k
    · have hrest : rest.filter (fun d => !(fold d.1 == fold k)) = rest := by
        rw [List.filter_eq_self]
        intro d hd'
        have hne : fold d.1 ≠ fold k := by
          intro he
          exact hd.1 (List.mem_map.mpr ⟨d, hd', he.trans h.symm⟩)
        simpa using hne
      simp [withdraw, find?, h, hrest]
    · simp [withdraw, find?, h, ih hd.2]

/-- Writes a value under a name; answers with the value that was there. -/
def insert (t : Table fold α) (k : String) (v : α) : Option α × Table fold α :=
  ((exchange fold k v t.entries).1,
    { entries := (exchange fold k v t.entries).2
      distinct := by
        rw [exchange_eq]
        exact nodup_assign k v t.distinct })

/-- Removes a name; answers with the value that was there. -/
def remove (t : Table fold α) (k : String) : Option α × Table fold α :=
  ((withdraw fold k t.entries).1,
    { entries := (withdraw fold k t.entries).2
      distinct := by
        rw [withdraw_eq k t.distinct]
        exact t.distinct.sublist (List.filter_sublist.map _) })

theorem insert_eq (t : Table fold α) (k : String) (v : α) :
    t.insert k v = (t.get? k, t.put k v) := by
  refine Prod.ext ?_ (ext_entries ?_)
  · show (exchange fold k v t.entries).1 = t.get? k
    rw [exchange_eq]
    rfl
  · show (exchange fold k v t.entries).2 = (t.put k v).entries
    rw [exchange_eq]
    rfl

theorem remove_eq (t : Table fold α) (k : String) : t.remove k = (t.get? k, t.erase k) := by
  refine Prod.ext ?_ (ext_entries ?_)
  · show (withdraw fold k t.entries).1 = t.get? k
    rw [withdraw_eq k t.distinct]
    rfl
  · show (withdraw fold k t.entries).2 = (t.erase k).entries
    rw [withdraw_eq k t.distinct]
    rfl

/-! ### Entries after a change -/

theorem entry?_put (t : Table fold α) (k k' : String) (v : α) :
    entry? (t.put k v) k' =
      if fold k' = fold k then some (((t.entry? k).map Prod.fst).getD k, v) else t.entry? k' := by
  have aux : ∀ l : List (String × α), find? fold k' (assign fold k v l) =
      if fold k' = fold k then some (((find? fold k l).map Prod.fst).getD k, v)
      else find? fold k' l := by
    intro l
    induction l with
    | nil => simp [assign, find?, eq_comm]
    | cons e rest ih =>
      by_cases he : fold e.1 = fold k
      · by_cases h : fold k' = fold k
        · simp [assign, find?, he, h]
        · simp [assign, find?, he, h, Ne.symm h]
      · by_cases h : fold e.1 = fold k'
        · have hk : fold k' ≠ fold k := fun hk => he (h.trans hk)
          simp [assign, find?, h, hk]
        · simp [assign, find?, he, h, ih]
  exact aux t.entries

theorem entry?_erase (t : Table fold α) (k k' : String) :
    entry? (t.erase k) k' = if fold k' = fold k then none else t.entry? k' :=
  find?_filter k k' t.entries

/-! ### Histories -/

/-- A change of a table. -/
inductive Change (α : Type) where
  | insert (name : String) (value : α)
  | remove (name : String)

namespace Change

/-- The name that is written or removed. -/
def name : Change α → String
  | insert name _ => name
  | remove name => name

/-- What a change answers, and the table after it. -/
def apply : Change α → Table fold α → Option α × Table fold α
  | insert name value, t => t.insert name value
  | remove name, t => t.remove name

/-- Every change answers with the value that was there before. -/
theorem apply_fst (c : Change α) (t : Table fold α) : (c.apply t).1 = t.get? c.name := by
  cases c with
  | insert k v => exact congrArg Prod.fst (t.insert_eq k v)
  | remove k => exact congrArg Prod.fst (t.remove_eq k)

theorem apply_insert_snd (t : Table fold α) (k : String) (v : α) :
    ((insert k v).apply t).2 = t.put k v := congrArg Prod.snd (t.insert_eq k v)

theorem apply_remove_snd (t : Table fold α) (k : String) :
    ((remove k : Change α).apply t).2 = t.erase k := congrArg Prod.snd (t.remove_eq k)

end Change

/-- The table that a history makes. -/
def after (history : List (Change α)) : Table fold α :=
  history.foldl (fun t c => (c.apply t).2) empty

/-- The times at which a name was written, under any spelling, and not removed since. -/
def standing (fold : String → String) (history : List (Change α)) (k : String) : Set Nat :=
  {i | (∃ n v, history[i]? = some (.insert n v) ∧ fold n = fold k) ∧
    ∀ j n, i < j → history[j]? = some (.remove n) → fold n ≠ fold k}

/-- A name was first written at a time, and in a spelling. -/
structure FirstWritten (fold : String → String) (history : List (Change α)) (k : String) (i : Nat)
    (n : String) : Prop where
  least : IsLeast (standing fold history k) i
  written : ∃ v, history[i]? = some (.insert n v)

/-- A name was last written with a value. -/
def LastWritten (fold : String → String) (history : List (Change α)) (k : String) (v : α) : Prop :=
  ∃ i n, IsGreatest (standing fold history k) i ∧ history[i]? = some (.insert n v)

variable {history : List (Change α)} {k n : String} {v : α} {i : Nat}

/-! ### What one more change does to the times -/

theorem getElem?_concat_iff {c d : Change α} :
    (history ++ [c])[i]? = some d ↔ history[i]? = some d ∨ i = history.length ∧ d = c := by
  obtain h | rfl | h := Nat.lt_trichotomy i history.length
  · simp [List.getElem?_append_left h, h.ne]
  · simp [eq_comm]
  · have hnone : (history ++ [c])[i]? = none := List.getElem?_eq_none (by simp; omega)
    simp [hnone, List.getElem?_eq_none h.le, h.ne']

theorem getElem?_concat_of_some {c d : Change α} (h : history[i]? = some d) :
    (history ++ [c])[i]? = some d := getElem?_concat_iff.mpr (.inl h)

theorem standing_lt (h : i ∈ standing fold history k) : i < history.length := by
  obtain ⟨⟨n, v, hi, -⟩, -⟩ := h
  exact (List.getElem?_eq_some_iff.mp hi).1

theorem standing_congr {k' : String} (h : fold k' = fold k) (history : List (Change α)) :
    standing fold history k' = standing fold history k := by
  unfold standing
  rw [h]

/-- A name that is written has been written once more, and no other name has. -/
theorem mem_standing_insert : i ∈ standing fold (history ++ [.insert n v]) k ↔
    i = history.length ∧ fold n = fold k ∨ i ∈ standing fold history k := by
  constructor
  · rintro ⟨⟨m, w, hi, hm⟩, hkept⟩
    obtain hi | ⟨rfl, he⟩ := getElem?_concat_iff.mp hi
    · exact .inr ⟨⟨m, w, hi, hm⟩, fun j r hj hr => hkept j r hj (getElem?_concat_of_some hr)⟩
    · cases he
      exact .inl ⟨rfl, hm⟩
  · rintro (⟨rfl, hn⟩ | ⟨⟨m, w, hi, hm⟩, hkept⟩)
    · refine ⟨⟨n, v, getElem?_concat_iff.mpr (.inr ⟨rfl, rfl⟩), hn⟩, fun j r hj hr => ?_⟩
      have hlt := (List.getElem?_eq_some_iff.mp hr).1
      rw [List.length_append, List.length_singleton] at hlt
      omega
    · refine ⟨⟨m, w, getElem?_concat_of_some hi, hm⟩, fun j r hj hr => ?_⟩
      obtain hr | ⟨-, he⟩ := getElem?_concat_iff.mp hr
      · exact hkept j r hj hr
      · cases he

/-- A name that is removed has never been written, and all others stay. -/
theorem mem_standing_remove : i ∈ standing fold (history ++ [.remove n]) k ↔
    fold n ≠ fold k ∧ i ∈ standing fold history k := by
  constructor
  · rintro ⟨⟨m, w, hi, hm⟩, hkept⟩
    obtain hi | ⟨-, he⟩ := getElem?_concat_iff.mp hi
    · have hlt := (List.getElem?_eq_some_iff.mp hi).1
      refine ⟨hkept history.length n hlt (getElem?_concat_iff.mpr (.inr ⟨rfl, rfl⟩)), ?_⟩
      exact ⟨⟨m, w, hi, hm⟩, fun j r hj hr => hkept j r hj (getElem?_concat_of_some hr)⟩
    · cases he
  · rintro ⟨hn, ⟨m, w, hi, hm⟩, hkept⟩
    refine ⟨⟨m, w, getElem?_concat_of_some hi, hm⟩, fun j r hj hr => ?_⟩
    obtain hr | ⟨-, he⟩ := getElem?_concat_iff.mp hr
    · exact hkept j r hj hr
    · cases he
      exact hn

theorem FirstWritten.insert {m : String} (h : FirstWritten fold history k i m) (n : String)
    (v : α) : FirstWritten fold (history ++ [.insert n v]) k i m := by
  obtain ⟨⟨hmem, hleast⟩, w, hw⟩ := h
  refine ⟨⟨mem_standing_insert.mpr (.inr hmem), fun j hj => ?_⟩, w, getElem?_concat_of_some hw⟩
  obtain ⟨rfl, -⟩ | hj := mem_standing_insert.mp hj
  · exact (standing_lt hmem).le
  · exact hleast hj

theorem FirstWritten.remove {m : String} (h : FirstWritten fold history k i m)
    (hn : fold n ≠ fold k) : FirstWritten fold (history ++ [.remove n]) k i m := by
  obtain ⟨⟨hmem, hleast⟩, w, hw⟩ := h
  refine ⟨⟨mem_standing_remove.mpr ⟨hn, hmem⟩, fun j hj => ?_⟩, w, getElem?_concat_of_some hw⟩
  exact hleast (mem_standing_remove.mp hj).2

theorem firstWritten_new (hn : fold n = fold k) (hnone : standing fold history k = ∅) :
    FirstWritten fold (history ++ [.insert n v]) k history.length n := by
  refine ⟨⟨mem_standing_insert.mpr (.inl ⟨rfl, hn⟩), fun j hj => ?_⟩, v, by simp⟩
  obtain ⟨rfl, -⟩ | hj := mem_standing_insert.mp hj
  · exact le_rfl
  · rw [hnone] at hj
    exact absurd hj (Set.notMem_empty j)

theorem lastWritten_new (hn : fold n = fold k) :
    LastWritten fold (history ++ [.insert n v]) k v := by
  refine ⟨history.length, n, ⟨mem_standing_insert.mpr (.inl ⟨rfl, hn⟩), fun j hj => ?_⟩, by simp⟩
  obtain ⟨rfl, -⟩ | hj := mem_standing_insert.mp hj
  · exact le_rfl
  · exact (standing_lt hj).le

theorem LastWritten.insert {w : α} (h : LastWritten fold history k w) (hn : fold n ≠ fold k)
    (v : α) : LastWritten fold (history ++ [.insert n v]) k w := by
  obtain ⟨i, m, ⟨hmem, hgreatest⟩, hw⟩ := h
  refine ⟨i, m, ⟨mem_standing_insert.mpr (.inr hmem), fun j hj => ?_⟩, getElem?_concat_of_some hw⟩
  obtain ⟨-, he⟩ | hj := mem_standing_insert.mp hj
  · exact absurd he hn
  · exact hgreatest hj

theorem LastWritten.remove {w : α} (h : LastWritten fold history k w) (hn : fold n ≠ fold k) :
    LastWritten fold (history ++ [.remove n]) k w := by
  obtain ⟨i, m, ⟨hmem, hgreatest⟩, hw⟩ := h
  refine ⟨i, m, ⟨mem_standing_remove.mpr ⟨hn, hmem⟩, fun j hj => ?_⟩, getElem?_concat_of_some hw⟩
  exact hgreatest (mem_standing_remove.mp hj).2

theorem FirstWritten.unique {j : Nat} {m : String} (h : FirstWritten fold history k i n)
    (h' : FirstWritten fold history k j m) : i = j ∧ n = m := by
  obtain rfl := h.least.unique h'.least
  obtain ⟨v, hv⟩ := h.written
  obtain ⟨w, hw⟩ := h'.written
  rw [hv] at hw
  cases hw
  exact ⟨rfl, rfl⟩

theorem LastWritten.unique {w : α} (h : LastWritten fold history k v)
    (h' : LastWritten fold history k w) : v = w := by
  obtain ⟨i, n, hi, hv⟩ := h
  obtain ⟨j, m, hj, hw⟩ := h'
  obtain rfl := hi.unique hj
  rw [hv] at hw
  cases hw
  rfl

/-! ### The table follows -/

/-- A table that says what its history says. -/
structure Tells (t : Table fold α) (history : List (Change α)) : Prop where
  absent : ∀ k, t.entry? k = none → standing fold history k = ∅
  first : ∀ k n v, t.entry? k = some (n, v) → ∃ i, FirstWritten fold history k i n
  last : ∀ k n v, t.entry? k = some (n, v) → LastWritten fold history k v
  order : t.keys.Pairwise fun m n =>
    ∃ i j, FirstWritten fold history m i m ∧ FirstWritten fold history n j n ∧ i < j

variable {t : Table fold α}

theorem exists_entry_of_mem_keys (h : n ∈ t.keys) : ∃ v, t.entry? n = some (n, v) := by
  obtain ⟨⟨m, v⟩, he, rfl⟩ := List.mem_map.mp h
  exact ⟨v, entry?_eq_some_iff.mpr ⟨he, rfl⟩⟩

theorem entry?_eq_none_iff : t.entry? k = none ↔ fold k ∉ t.folded := find?_eq_none_iff

theorem tells_empty : (empty : Table fold α).Tells [] where
  absent k _ := by simp [standing]
  first k n v h := by cases h
  last k n v h := by cases h
  order := .nil

theorem Tells.put (h : t.Tells history) (n : String) (v : α) :
    (t.put n v).Tells (history ++ [.insert n v]) where
  absent k hk := by
    rw [entry?_put] at hk
    split at hk
    · cases hk
    · next hne =>
      ext i
      rw [mem_standing_insert, h.absent k hk]
      simpa using fun _ => Ne.symm hne
  first k m w hk := by
    rw [entry?_put] at hk
    split at hk
    · next he =>
      cases hk
      cases hold : t.entry? n with
      | none =>
        exact ⟨_, firstWritten_new he.symm (standing_congr he history ▸ h.absent n hold)⟩
      | some e =>
        obtain ⟨i, hi⟩ := h.first n e.1 e.2 hold
        refine ⟨i, ?_, ?_⟩
        · rw [standing_congr he]
          exact (hi.insert n v).least
        · exact (hi.insert n v).written
    · obtain ⟨i, hi⟩ := h.first k m w hk
      exact ⟨i, hi.insert n v⟩
  last k m w hk := by
    rw [entry?_put] at hk
    split at hk
    · next he =>
      cases hk
      exact lastWritten_new he.symm
    · next hne => exact (h.last k m w hk).insert (Ne.symm hne) v
  order := by
    have hkept : t.keys.Pairwise fun m m' => ∃ i j,
        FirstWritten fold (history ++ [.insert n v]) m i m ∧
        FirstWritten fold (history ++ [.insert n v]) m' j m' ∧ i < j := by
      refine h.order.imp ?_
      rintro m m' ⟨i, j, hi, hj, hij⟩
      exact ⟨i, j, hi.insert n v, hj.insert n v, hij⟩
    rw [keys_put]
    split
    · exact hkept
    · next hnew =>
      refine List.pairwise_append.mpr ⟨hkept, List.pairwise_singleton _ _, fun m hm m' hm' => ?_⟩
      obtain rfl := List.mem_singleton.mp hm'
      obtain ⟨w, hw⟩ := exists_entry_of_mem_keys hm
      obtain ⟨i, hi⟩ := h.first m m w hw
      have hnone := h.absent m' (entry?_eq_none_iff.mpr hnew)
      exact ⟨i, history.length, hi.insert m' v, firstWritten_new rfl hnone,
        standing_lt hi.least.1⟩

theorem Tells.erase (h : t.Tells history) (n : String) :
    (t.erase n).Tells (history ++ [.remove n]) where
  absent k hk := by
    rw [entry?_erase] at hk
    ext i
    rw [mem_standing_remove]
    split at hk
    · next he => simp [he]
    · simp [h.absent k hk]
  first k m w hk := by
    rw [entry?_erase] at hk
    split at hk
    · cases hk
    · next hne =>
      obtain ⟨i, hi⟩ := h.first k m w hk
      exact ⟨i, hi.remove (Ne.symm hne)⟩
  last k m w hk := by
    rw [entry?_erase] at hk
    split at hk
    · cases hk
    · next hne => exact (h.last k m w hk).remove (Ne.symm hne)
  order := by
    rw [keys_erase]
    refine (h.order.filter _).imp_of_mem ?_
    rintro m m' hm hm' ⟨i, j, hi, hj, hij⟩
    have hne : fold m ≠ fold n := by simpa using (List.mem_filter.mp hm).2
    have hne' : fold m' ≠ fold n := by simpa using (List.mem_filter.mp hm').2
    exact ⟨i, j, hi.remove (Ne.symm hne), hj.remove (Ne.symm hne'), hij⟩

theorem tells_after (history : List (Change α)) : (after history : Table fold α).Tells history := by
  induction history using List.reverseRecOn with
  | nil => exact tells_empty
  | append_singleton history c ih =>
    rw [after, List.foldl_append, ← after]
    cases c with
    | insert n v =>
      have hstep := ih.put n v
      rwa [← Change.apply_insert_snd] at hstep
    | remove n =>
      have hstep := ih.erase n
      rwa [← Change.apply_remove_snd] at hstep

/-- A name is in the table when it was written and not removed since. -/
theorem Tells.contains_iff (h : t.Tells history) :
    t.contains k = true ↔ (standing fold history k).Nonempty := by
  rw [contains, Option.isSome_iff_exists]
  constructor
  · rintro ⟨⟨n, v⟩, he⟩
    obtain ⟨i, hi⟩ := h.first k n v he
    exact ⟨i, hi.least.1⟩
  · intro hsome
    refine Option.ne_none_iff_exists'.mp fun hnone => ?_
    rw [h.absent k hnone] at hsome
    exact Set.not_nonempty_empty hsome

theorem Tells.exists_entry (h : t.Tells history) (hi : i ∈ standing fold history k) :
    ∃ e, t.entry? k = some e :=
  Option.isSome_iff_exists.mp (h.contains_iff.mpr ⟨i, hi⟩)

/-- An entry has its spelling from the first time its name was written, and its value from the
last. -/
theorem Tells.entry?_eq_some_iff (h : t.Tells history) : t.entry? k = some (n, v) ↔
    (∃ i, FirstWritten fold history k i n) ∧ LastWritten fold history k v := by
  constructor
  · exact fun he => ⟨h.first k n v he, h.last k n v he⟩
  · rintro ⟨⟨i, hi⟩, hv⟩
    obtain ⟨⟨m, w⟩, he⟩ := h.exists_entry hi.least.1
    obtain ⟨j, hj⟩ := h.first k m w he
    rw [he, (hi.unique hj).2, hv.unique (h.last k m w he)]

theorem Tells.get?_eq_some_iff (h : t.Tells history) :
    t.get? k = some v ↔ LastWritten fold history k v := by
  rw [get?, Option.map_eq_some_iff]
  constructor
  · rintro ⟨⟨n, w⟩, he, rfl⟩
    exact h.last k n w he
  · intro hv
    obtain ⟨i, n, hi, hw⟩ := hv
    obtain ⟨⟨m, w⟩, he⟩ := h.exists_entry hi.1
    exact ⟨(m, w), he, (h.last k m w he).unique ⟨i, n, hi, hw⟩⟩

end Table

/-- **Properties and their history.**  A key is there when it was written, in whatever case, and not
removed since.  Its value is the one written last, its spelling the one written first since the last
removal, and the keys stand in the order in which they were first written.  No two of them are the
same but for case.  Whatever is written or removed next, the answer is the value that is there. -/
theorem Properties.follow_history (history : List (Table.Change Value)) :
    let p : Properties := Table.after history
    (∀ k, p.contains k = true ↔ (Table.standing Text.lower history k).Nonempty) ∧
    (∀ k v, p.get? k = some v ↔ Table.LastWritten Text.lower history k v) ∧
    (∀ k n v, p.entry? k = some (n, v) ↔
      (∃ i, Table.FirstWritten Text.lower history k i n) ∧
        Table.LastWritten Text.lower history k v) ∧
    p.keys.Pairwise (fun m n => ∃ i j, Table.FirstWritten Text.lower history m i m ∧
      Table.FirstWritten Text.lower history n j n ∧ i < j) ∧
    p.keys.Pairwise (fun m n => Text.lower m ≠ Text.lower n) ∧
    ∀ c : Table.Change Value, (c.apply p).1 = p.get? c.name := by
  intro p
  have tells : p.Tells history := Table.tells_after history
  refine ⟨fun k => tells.contains_iff, fun k v => tells.get?_eq_some_iff,
    fun k n v => tells.entry?_eq_some_iff, tells.order, ?_, fun c => c.apply_fst p⟩
  exact List.pairwise_map.mpr (List.pairwise_map.mp p.distinct)

/-- A key that is written again keeps its place and its first spelling; one that was removed in
between starts anew. -/
example : (Table.after [.insert "Level" (.integer 5), .insert "Mode" (.text "a"),
      .insert "LEVEL" (.integer 6), .remove "mode", .insert "MODE" (.text "b")] :
        Properties).entries = [("Level", .integer 6), ("MODE", .text "b")] := by rfl

end Provisioning
