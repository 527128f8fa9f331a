import Provisioning.Bindings
import Provisioning.Proofs.Stock

/-! # Facts about bindings

What the table of bindings holds after it was changed, what is then stored of it, and that what
is stored stands for the table.
-/
namespace Provisioning

namespace Table

variable {α : Type}

theorem assign_of_not_mem {fold : String → String} {k : String} (v : α)
    {l : List (String × α)} (h : fold k ∉ l.map fun e => fold e.1) :
    assign fold k v l = l ++ [(k, v)] := by
  induction l with
  | nil => rfl
  | cons e rest ih =>
    rw [List.map_cons, List.mem_cons, not_or] at h
    rw [assign, if_neg (Ne.symm h.1), ih h.2]
    rfl

/-- Values of new names are written one behind the other. -/
theorem entries_putAll {fold : String → String} {t : Table fold α} {l : List (String × α)}
    (h : ((t.entries ++ l).map fun e => fold e.1).Nodup) :
    (t.putAll l).entries = t.entries ++ l := by
  induction l generalizing t with
  | nil => exact (List.append_nil _).symm
  | cons e rest ih =>
    have hnew : fold e.1 ∉ t.entries.map fun e => fold e.1 := by
      rw [List.map_append, List.nodup_append] at h
      exact fun hm => h.2.2 _ hm _ (List.mem_map_of_mem List.mem_cons_self) rfl
    have hput : (t.put e.1 e.2).entries = t.entries ++ [e] := assign_of_not_mem e.2 hnew
    have hrest := ih (t := t.put e.1 e.2) (by rwa [hput, List.append_assoc])
    refine hrest.trans ?_
    rw [hput, List.append_assoc]
    rfl

/-- A table is the table of its own entries. -/
theorem ofList_entries {fold : String → String} (t : Table fold α) : ofList t.entries = t :=
  ext_entries (entries_putAll t.distinct)

theorem contains_eq_isSome {fold : String → String} (t : Table fold α) (k : String) :
    t.contains k = (t.get? k).isSome := by
  rw [contains, get?, Option.isSome_map]

/-- Where names are exact, a look-up finds exactly the entries. -/
theorem get?_eq_some_iff {t : ExactTable α} {k : String} {v : α} :
    t.get? k = some v ↔ (k, v) ∈ t.entries := by
  unfold get?
  rw [Option.map_eq_some_iff]
  constructor
  · rintro ⟨⟨k', v'⟩, he, rfl⟩
    obtain ⟨hm, rfl⟩ := entry?_eq_some_iff.mp he
    exact hm
  · intro hm
    exact ⟨(k, v), entry?_eq_some_iff.mpr ⟨hm, rfl⟩, rfl⟩

theorem mem_values_iff {t : ExactTable α} {v : α} : v ∈ t.values ↔ ∃ k, t.get? k = some v := by
  unfold values
  rw [List.mem_map]
  constructor
  · rintro ⟨⟨k, v⟩, he, rfl⟩
    exact ⟨k, get?_eq_some_iff.mpr he⟩
  · rintro ⟨k, hk⟩
    exact ⟨(k, v), get?_eq_some_iff.mp hk, rfl⟩

end Table

namespace Bindings

/-- What is stored of a table of bindings is the table. -/
theorem decode_encode (pairs : List (String × String)) : decode (encode pairs) = pairs := by
  have hpair : decodePair? ∘ encodePair = some := funext fun _ => rfl
  unfold decode encode
  rw [Table.get?_put_self]
  dsimp only
  rw [List.filterMap_map, hpair, List.filterMap_some]

variable (t : Bindings)

/-- The binding of a pid that the storage has for a table. -/
def stored? (s : Storage) (pid : String) : Option String :=
  (s.held t.home t.id).bind fun d => (Table.ofList (decode d) : ExactTable String).get? pid

theorem stored?_of_encode {s : Storage} (h : s.held t.home t.id = some (encode t.table.entries))
    (pid : String) : t.stored? s pid = t.get? pid := by
  rw [stored?, h, Option.bind_some, decode_encode, Table.ofList_entries]
  rfl

/-- The table is written, or the storage stays as it is. -/
theorem persist_cases (s : Storage) :
    t.persist s = s ∨ s.store t.home t.id (encode t.table.entries) = .ok (t.persist s) := by
  unfold persist
  split
  · next h => exact Or.inr h
  · exact Or.inl rfl

theorem get?_assign (pid pid' : String) (location : Option String) :
    (t.assign pid location).get? pid' = if pid' = pid then location else t.get? pid' := by
  cases location with
  | some l => exact Table.get?_put t.table pid pid' l
  | none => exact Table.get?_erase t.table pid pid'

/-- The table stays where it is stored. -/
theorem assign_identity (pid : String) (location : Option String) :
    (t.assign pid location).id = t.id ∧ (t.assign pid location).home = t.home := by
  cases location <;> exact ⟨rfl, rfl⟩

/-- Assigning the binding that is there already changes nothing. -/
theorem assign_get? {pid : String} {location : Option String} (h : t.get? pid = location) :
    t.assign pid location = t := by
  cases location with
  | some l =>
    have ht : t.table.put pid l = t.table := Table.put_of_get? h
    exact congrArg (fun table => ({ t with table } : Bindings)) ht
  | none =>
    have ht : t.table.erase pid = t.table := Table.erase_of_get?_eq_none h
    exact congrArg (fun table => ({ t with table } : Bindings)) ht

theorem mem_boundTo {location pid : String} :
    pid ∈ t.boundTo location ↔ t.get? pid = some location := by
  unfold boundTo get?
  rw [Table.get?_eq_some_iff, List.mem_map]
  constructor
  · rintro ⟨⟨p, l⟩, hm, rfl⟩
    obtain ⟨he, hl⟩ := List.mem_filter.mp hm
    obtain rfl : l = location := by simpa using hl
    exact he
  · intro hm
    exact ⟨(pid, location), List.mem_filter.mpr ⟨hm, by simp⟩, rfl⟩

/-- Clears the bindings of some pids. -/
def withdrawAll (pids : List String) (b : Bindings × Storage) : Bindings × Storage :=
  pids.foldl (fun b pid => b.1.put pid none b.2) b

theorem withdrawAll_id (pids : List String) (b : Bindings × Storage) :
    (withdrawAll pids b).1.id = b.1.id := by
  induction pids generalizing b with
  | nil => rfl
  | cons pid rest ih => exact (ih _).trans (b.1.assign_identity pid none).1

theorem get?_withdrawAll (pids : List String) (b : Bindings × Storage) (pid : String) :
    (withdrawAll pids b).1.get? pid = if pid ∈ pids then none else b.1.get? pid := by
  induction pids generalizing b with
  | nil => rfl
  | cons p rest ih =>
    have hone : (b.1.put p none b.2).1.get? pid = if pid = p then none else b.1.get? pid :=
      b.1.get?_assign p pid none
    refine (ih _).trans ?_
    rw [hone]
    by_cases hp : pid = p
    · simp [hp]
    · simp [hp]

/-- What is left when all bindings to a location are cleared. -/
theorem get?_withdrawAll_boundTo (location : String) (s : Storage) (pid : String) :
    (withdrawAll (t.boundTo location) (t, s)).1.get? pid =
      (t.get? pid).filter fun l => l != location := by
  simp only [get?_withdrawAll, mem_boundTo]
  cases t.get? pid with
  | none => rfl
  | some l =>
    by_cases hl : l = location
    · simp [Option.filter, hl]
    · simp [Option.filter, hl]

end Bindings
end Provisioning
