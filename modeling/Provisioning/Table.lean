/-! # Tables in order of arrival

A table from names to values that remembers the order in which its names first arrived.
Names are compared after folding: without any, every spelling is a name of its own, with a
lower-case map all spellings of a name are one.  Writing to a name that is present changes
its value and keeps its place and its first spelling; removing a name keeps the order of
the rest.  The lemmas say what each operation does to the look-up and to the list of names.
-/
namespace Provisioning

/-- A list of named values in which no two names fold to the same. -/
structure Table (fold : String → String) (α : Type) where
  entries : List (String × α)
  distinct : (entries.map fun e => fold e.1).Nodup := by simp

/-- A table in which every spelling is a name of its own. -/
abbrev ExactTable (α : Type) := Table (fun name => name) α

namespace Table

variable {fold : String → String} {α β : Type}

/-- The table without entries. -/
def empty : Table fold α := { entries := [] }

instance : Inhabited (Table fold α) := ⟨empty⟩

/-- The first entry of a list whose name folds like `k`. -/
def find? (fold : String → String) (k : String) : List (String × α) → Option (String × α)
  | [] => none
  | e :: rest => if fold e.1 = fold k then some e else find? fold k rest

/-- A list of named values with the value of one name replaced, or with the name added at
the end. -/
def assign (fold : String → String) (k : String) (v : α) :
    List (String × α) → List (String × α)
  | [] => [(k, v)]
  | e :: rest => if fold e.1 = fold k then (e.1, v) :: rest else e :: assign fold k v rest

/-- The names after an assignment: a new one goes to the end, an old one stays. -/
theorem map_fst_assign (k : String) (v : α) (l : List (String × α)) :
    (assign fold k v l).map Prod.fst =
      if fold k ∈ l.map (fun e => fold e.1) then l.map Prod.fst
      else l.map Prod.fst ++ [k] := by
  induction l with
  | nil => rfl
  | cons e rest ih =>
    by_cases h : fold e.1 = fold k
    · simp [assign, h]
    · have h' : fold k ≠ fold e.1 := fun hk => h hk.symm
      simp only [assign, h, if_false, List.map_cons, ih, List.mem_cons, h', false_or]
      split <;> simp

theorem map_fold_assign (k : String) (v : α) (l : List (String × α)) :
    (assign fold k v l).map (fun e => fold e.1) =
      if fold k ∈ l.map (fun e => fold e.1) then l.map (fun e => fold e.1)
      else l.map (fun e => fold e.1) ++ [fold k] := by
  induction l with
  | nil => rfl
  | cons e rest ih =>
    by_cases h : fold e.1 = fold k
    · simp [assign, h]
    · have h' : fold k ≠ fold e.1 := fun hk => h hk.symm
      simp only [assign, h, if_false, List.map_cons, ih, List.mem_cons, h', false_or]
      split <;> simp

theorem nodup_assign (k : String) (v : α) {l : List (String × α)}
    (h : (l.map fun e => fold e.1).Nodup) :
    ((assign fold k v l).map fun e => fold e.1).Nodup := by
  rw [map_fold_assign]
  split
  · exact h
  · next hk =>
    refine List.nodup_append.mpr ⟨h, by simp, ?_⟩
    intro a ha b hb
    simp only [List.mem_singleton] at hb
    subst hb
    exact fun he => hk (he ▸ ha)

/-- The entry under a name, with the spelling it was first written with. -/
def entry? (t : Table fold α) (k : String) : Option (String × α) := find? fold k t.entries

/-- The value under a name. -/
def get? (t : Table fold α) (k : String) : Option α := (t.entry? k).map Prod.snd

/-- Whether a name is present. -/
def contains (t : Table fold α) (k : String) : Bool := (t.entry? k).isSome

/-- Writes a value under a name. -/
def put (t : Table fold α) (k : String) (v : α) : Table fold α where
  entries := assign fold k v t.entries
  distinct := nodup_assign k v t.distinct

/-- Keeps the entries that pass a test. -/
def keep (t : Table fold α) (p : String → α → Bool) : Table fold α where
  entries := t.entries.filter fun e => p e.1 e.2
  distinct := t.distinct.sublist (List.filter_sublist.map _)

/-- Removes a name. -/
def erase (t : Table fold α) (k : String) : Table fold α :=
  t.keep fun name _ => !(fold name == fold k)

/-- Applies a function to every value. -/
def mapValues (t : Table fold α) (f : α → β) : Table fold β where
  entries := t.entries.map fun e => (e.1, f e.2)
  distinct := by
    have h : ((t.entries.map fun e => (e.1, f e.2)).map fun e => fold e.1) =
        t.entries.map fun e => fold e.1 := by simp
    rw [h]
    exact t.distinct

/-- Writes a list of named values one after the other. -/
def putAll (t : Table fold α) (l : List (String × α)) : Table fold α :=
  l.foldl (fun t e => t.put e.1 e.2) t

/-- The table of a list of named values, written one after the other. -/
def ofList (l : List (String × α)) : Table fold α := empty.putAll l

/-- The names in order of arrival. -/
def keys (t : Table fold α) : List String := t.entries.map Prod.fst

/-- The folded names in order of arrival. -/
def folded (t : Table fold α) : List String := t.entries.map fun e => fold e.1

/-- The values in order of arrival. -/
def values (t : Table fold α) : List α := t.entries.map Prod.snd

/-- The number of entries. -/
def size (t : Table fold α) : Nat := t.entries.length

theorem ext_entries {t u : Table fold α} (h : t.entries = u.entries) : t = u := by
  cases t
  cases u
  cases h
  rfl

@[simp] theorem entries_empty : (empty : Table fold α).entries = [] := rfl

@[simp] theorem entries_put (t : Table fold α) (k : String) (v : α) :
    (t.put k v).entries = assign fold k v t.entries := rfl

@[simp] theorem entries_erase (t : Table fold α) (k : String) :
    (t.erase k).entries = t.entries.filter fun e => !(fold e.1 == fold k) := rfl

@[simp] theorem get?_empty (k : String) : (empty : Table fold α).get? k = none := rfl

theorem nodup_folded (t : Table fold α) : t.folded.Nodup := t.distinct

theorem find?_congr {k k' : String} (h : fold k' = fold k) (l : List (String × α)) :
    find? fold k' l = find? fold k l := by
  induction l with
  | nil => rfl
  | cons e rest ih => simp [find?, h, ih]

theorem find?_assign (k k' : String) (v : α) (l : List (String × α)) :
    (find? fold k' (assign fold k v l)).map Prod.snd =
      if fold k' = fold k then some v else (find? fold k' l).map Prod.snd := by
  induction l with
  | nil =>
    by_cases h : fold k' = fold k
    · simp [assign, find?, h]
    · have h' : fold k ≠ fold k' := fun he => h he.symm
      simp [assign, find?, h, h']
  | cons e rest ih =>
    by_cases he : fold e.1 = fold k
    · by_cases h : fold k' = fold k
      · simp [assign, find?, he, h]
      · have h' : fold k ≠ fold k' := fun hk => h hk.symm
        simp [assign, find?, he, h, h']
    · by_cases h : fold e.1 = fold k'
      · have hk : fold k' ≠ fold k := fun hk => he (h.trans hk)
        simp [assign, find?, h, hk]
      · simp [assign, find?, he, h, ih]

theorem find?_filter (k k' : String) (l : List (String × α)) :
    find? fold k' (l.filter fun e => !(fold e.1 == fold k)) =
      if fold k' = fold k then none else find? fold k' l := by
  induction l with
  | nil => simp [find?]
  | cons e rest ih =>
    by_cases he : fold e.1 = fold k
    · by_cases h : fold k' = fold k
      · simp [he, h, ih]
      · have h' : fold k ≠ fold k' := fun hk => h hk.symm
        simp [find?, he, h, h', ih]
    · by_cases h : fold e.1 = fold k'
      · have hk : fold k' ≠ fold k := fun hk => he (h.trans hk)
        simp [find?, h, hk]
      · simp [find?, he, h, ih]

/-- What was written is found under every spelling of its name, and no other name changes. -/
theorem get?_put (t : Table fold α) (k k' : String) (v : α) :
    (t.put k v).get? k' = if fold k' = fold k then some v else t.get? k' :=
  find?_assign k k' v t.entries

/-- What was removed is gone, and no other name changes. -/
theorem get?_erase (t : Table fold α) (k k' : String) :
    (t.erase k).get? k' = if fold k' = fold k then none else t.get? k' := by
  simp only [get?, entry?, entries_erase, find?_filter]
  split <;> rfl

@[simp] theorem get?_put_self (t : Table fold α) (k : String) (v : α) :
    (t.put k v).get? k = some v := by
  simp [get?_put]

theorem get?_put_of_ne (t : Table fold α) {k k' : String} (h : fold k' ≠ fold k) (v : α) :
    (t.put k v).get? k' = t.get? k' := by
  simp [get?_put, h]

@[simp] theorem get?_erase_self (t : Table fold α) (k : String) :
    (t.erase k).get? k = none := by
  simp [get?_erase]

theorem get?_erase_of_ne (t : Table fold α) {k k' : String} (h : fold k' ≠ fold k) :
    (t.erase k).get? k' = t.get? k' := by
  simp [get?_erase, h]

/-- A new name goes to the end, an old one stays where it is. -/
theorem keys_put (t : Table fold α) (k : String) (v : α) :
    (t.put k v).keys = if fold k ∈ t.folded then t.keys else t.keys ++ [k] :=
  map_fst_assign k v t.entries

theorem folded_put (t : Table fold α) (k : String) (v : α) :
    (t.put k v).folded = if fold k ∈ t.folded then t.folded else t.folded ++ [fold k] :=
  map_fold_assign k v t.entries

/-- Removing keeps the order of the rest. -/
theorem keys_erase (t : Table fold α) (k : String) :
    (t.erase k).keys = t.keys.filter fun name => !(fold name == fold k) := by
  simp only [keys, entries_erase, List.filter_map]
  rfl

theorem find?_eq_none_iff {k : String} {l : List (String × α)} :
    find? fold k l = none ↔ fold k ∉ l.map fun e => fold e.1 := by
  induction l with
  | nil => simp [find?]
  | cons e rest ih =>
    by_cases h : fold e.1 = fold k
    · simp [find?, h]
    · have h' : fold k ≠ fold e.1 := fun hk => h hk.symm
      simp only [find?, h, if_false, ih, List.map_cons, List.mem_cons, h', false_or]

/-- Nothing is found exactly under the names that are absent. -/
theorem get?_eq_none_iff {t : Table fold α} {k : String} :
    t.get? k = none ↔ fold k ∉ t.folded := by
  rw [get?, Option.map_eq_none_iff]
  exact find?_eq_none_iff

theorem mem_of_find?_eq_some {k : String} {e : String × α} {l : List (String × α)}
    (h : find? fold k l = some e) : e ∈ l ∧ fold e.1 = fold k := by
  induction l with
  | nil => simp [find?] at h
  | cons d rest ih =>
    by_cases hd : fold d.1 = fold k
    · simp only [find?, hd, if_true, Option.some.injEq] at h
      subst h
      simp [hd]
    · simp only [find?, hd, if_false] at h
      exact ⟨List.mem_cons_of_mem _ (ih h).1, (ih h).2⟩

theorem find?_eq_some_of_mem {e : String × α} {l : List (String × α)}
    (hd : (l.map fun e => fold e.1).Nodup) (h : e ∈ l) : find? fold e.1 l = some e := by
  induction l with
  | nil => simp at h
  | cons d rest ih =>
    simp only [List.map_cons, List.nodup_cons] at hd
    rcases List.mem_cons.mp h with h | h
    · subst h
      simp [find?]
    · have hne : fold d.1 ≠ fold e.1 := by
        intro he
        exact hd.1 (he ▸ List.mem_map_of_mem (f := fun e : String × α => fold e.1) h)
      simp [find?, hne, ih hd.2 h]

/-- A look-up finds exactly the entries. -/
theorem entry?_eq_some_iff {t : Table fold α} {k : String} {e : String × α} :
    t.entry? k = some e ↔ e ∈ t.entries ∧ fold e.1 = fold k := by
  constructor
  · exact mem_of_find?_eq_some
  · rintro ⟨hm, he⟩
    rw [← find?_eq_some_of_mem t.distinct hm]
    exact find?_congr he.symm t.entries

/-- Removing a name that is absent changes nothing. -/
theorem erase_of_get?_eq_none {t : Table fold α} {k : String} (h : t.get? k = none) :
    t.erase k = t := by
  apply ext_entries
  rw [entries_erase, List.filter_eq_self]
  intro e he
  have hk : fold k ∉ t.folded := get?_eq_none_iff.mp h
  have hne : fold e.1 ≠ fold k := fun heq => hk (heq ▸ List.mem_map_of_mem he)
  simpa using hne

/-- Writing the value that is already there changes nothing. -/
theorem put_of_get? {t : Table fold α} {k : String} {v : α} (h : t.get? k = some v) :
    t.put k v = t := by
  apply ext_entries
  have aux : ∀ l : List (String × α),
      (find? fold k l).map Prod.snd = some v → assign fold k v l = l := by
    intro l
    induction l with
    | nil => intro hv; simp [find?] at hv
    | cons e rest ih =>
      intro hv
      by_cases he : fold e.1 = fold k
      · simp only [find?, he, if_true, Option.map_some, Option.some.injEq] at hv
        subst hv
        simp [assign, he]
      · simp only [find?, he, if_false] at hv
        simp [assign, he, ih hv]
  exact aux t.entries h

end Table
end Provisioning
