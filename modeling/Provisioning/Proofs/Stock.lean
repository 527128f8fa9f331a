import Provisioning.Proofs.DeliveryView

/-! # What the storage holds

A manager that has the storage to itself finds nothing there that it did not put there: every
configuration it stores is cached, so that looking one up never loads it.  This rests on what
the manager writes beside the configurations, the rosters and the bindings: neither carries a
pid, so neither is taken for a configuration, and each has ids of its own.
-/
namespace Provisioning

/-- A dictionary that stands for a configuration, which carries its pid, is stored. -/
def Backend.HasConfiguration (b : Backend) (pid : String) : Prop :=
  ∃ d, b.dictionaries.get? pid = some d ∧ d.contains Properties.pidKey = true

namespace Backend

variable (b : Backend)

theorem hasConfiguration_place {id pid : String} {d : Properties}
    (h : (b.place id d).HasConfiguration pid) :
    (pid = id ∧ d.contains Properties.pidKey = true) ∨ b.HasConfiguration pid := by
  obtain ⟨d', hd, hk⟩ := h
  unfold place at hd
  simp only [Table.get?_put] at hd
  split at hd
  · next he =>
    cases hd
    exact Or.inl ⟨he, hk⟩
  · exact Or.inr ⟨d', hd, hk⟩

theorem hasConfiguration_remove {id pid : String} (h : (b.remove id).HasConfiguration pid) :
    pid ≠ id ∧ b.HasConfiguration pid := by
  obtain ⟨d, hd, hk⟩ := h
  unfold remove at hd
  simp only [Table.get?_erase] at hd
  split at hd
  · cases hd
  · next he => exact ⟨he, d, hd, hk⟩

end Backend

/-- A dictionary with one entry of another name carries no pid. -/
theorem Properties.not_contains_pid {key : String} (v : Value)
    (h : Text.lower pidKey ≠ Text.lower key) :
    ((Table.empty : Properties).put key v).contains pidKey = false := by
  have hg := Table.get?_put (Table.empty : Properties) key pidKey v
  rw [if_neg h, Table.get?_empty, Table.get?, Option.map_eq_none_iff] at hg
  unfold Table.contains
  rw [hg, Option.isSome_none]

namespace Storage

variable (st : Storage)

theorem backend_withBackend (name name' : String) (b : Backend) :
    (st.withBackend name b).backend name' = if name' = name then b else st.backend name' := by
  unfold backend withBackend
  simp only [Table.get?_put]
  split <;> rfl

/-- What a backend holds under an id. -/
def held (name id : String) : Option Properties := (st.backend name).dictionaries.get? id

/-- The ids that the bindings and the rosters are stored under. -/
def Reserved (bindingsId id : String) : Prop := id = bindingsId ∨ ∃ f, id = Roster.idOf f

theorem store_eq {st st' : Storage} {name id : String} {d : Properties}
    (h : st.store name id d = .ok st') :
    st' = st.withBackend name ((st.backend name).place id d) := by
  unfold store Backend.store at h
  split at h
  · cases h
    rfl
  · cases h

theorem store_of_writable {st : Storage} {name id : String}
    (h : (st.backend name).writable id = true) (d : Properties) :
    st.store name id d = .ok (st.withBackend name ((st.backend name).place id d)) := by
  rw [store, Backend.store, if_pos h]
  rfl

theorem delete_eq {st st' : Storage} {name id : String} (h : st.delete name id = .ok st') :
    st' = st.withBackend name ((st.backend name).remove id) := by
  unfold delete Backend.delete at h
  split at h
  · cases h
    rfl
  · cases h

theorem held_store {st st' : Storage} {name id : String} {d : Properties}
    (h : st.store name id d = .ok st') (name' id' : String) :
    st'.held name' id' = if name' = name ∧ id' = id then some d else st.held name' id' := by
  rw [store_eq h, held, backend_withBackend]
  by_cases hn : name' = name
  · subst hn
    simp only [if_true, true_and, held, Backend.place, Table.get?_put]
  · simp only [hn, if_false, false_and, held]

theorem held_delete {st st' : Storage} {name id : String} (h : st.delete name id = .ok st')
    (name' id' : String) :
    st'.held name' id' = if name' = name ∧ id' = id then none else st.held name' id' := by
  rw [delete_eq h, held, backend_withBackend]
  by_cases hn : name' = name
  · subst hn
    simp only [if_true, true_and, held, Backend.remove, Table.get?_erase]
  · simp only [hn, if_false, false_and, held]

theorem hasConfiguration_store {st st' : Storage} {name id : String} {d : Properties}
    (h : st.store name id d = .ok st') {name' pid : String}
    (hc : (st'.backend name').HasConfiguration pid) :
    (pid = id ∧ d.contains Properties.pidKey = true) ∨
      (st.backend name').HasConfiguration pid := by
  rw [store_eq h, backend_withBackend] at hc
  split at hc
  · next he =>
    subst he
    exact (st.backend name').hasConfiguration_place hc
  · exact Or.inr hc

/-- A later storage that holds no configuration more. -/
structure GainsNoConfiguration (st st' : Storage) : Prop where
  chain : st'.chain = st.chain
  configurations : ∀ name pid, (st'.backend name).HasConfiguration pid →
    (st.backend name).HasConfiguration pid

theorem GainsNoConfiguration.refl : st.GainsNoConfiguration st := ⟨rfl, fun _ _ h => h⟩

theorem GainsNoConfiguration.trans {st st' st'' : Storage} (h : st.GainsNoConfiguration st')
    (h' : st'.GainsNoConfiguration st'') :
    st.GainsNoConfiguration st'' :=
  ⟨h'.chain.trans h.chain, fun name pid hc => h.configurations name pid
    (h'.configurations name pid hc)⟩

/-- A later storage, in which only the bindings and the rosters may have changed. -/
structure SameStored (bindingsId : String) (st st' : Storage) : Prop
    extends st.GainsNoConfiguration st' where
  others : ∀ name id, ¬Reserved bindingsId id → st'.held name id = st.held name id

variable {bindingsId : String}

theorem SameStored.refl : st.SameStored bindingsId st := ⟨.refl st, fun _ _ _ => rfl⟩

theorem SameStored.trans {st st' st'' : Storage} (h : st.SameStored bindingsId st')
    (h' : st'.SameStored bindingsId st'') : st.SameStored bindingsId st'' :=
  ⟨h.toGainsNoConfiguration.trans h'.toGainsNoConfiguration,
    fun name id hr => (h'.others name id hr).trans (h.others name id hr)⟩

theorem sameStored_store {st st' : Storage} {name id : String} {d : Properties}
    (hid : Reserved bindingsId id) (hd : d.contains Properties.pidKey = false)
    (h : st.store name id d = .ok st') : st.SameStored bindingsId st' := by
  refine ⟨⟨?_, fun name' pid hc => ?_⟩, fun name' id' hr => ?_⟩
  · rw [store_eq h]
    rfl
  · rcases hasConfiguration_store h hc with ⟨-, hk⟩ | hc
    · rw [hd] at hk
      cases hk
    · exact hc
  · rw [held_store h, if_neg]
    rintro ⟨-, rfl⟩
    exact hr hid

/-- A backend that fails at other things holds what it held. -/
theorem sameStored_withBackend {name : String} {b : Backend}
    (h : b.dictionaries = (st.backend name).dictionaries) :
    st.SameStored bindingsId (st.withBackend name b) := by
  have hsame : ∀ name', ((st.withBackend name b).backend name').dictionaries =
      (st.backend name').dictionaries := by
    intro name'
    rw [backend_withBackend]
    split
    · next he => rw [h, he]
    · rfl
  refine ⟨⟨rfl, fun name' pid hc => ?_⟩, fun name' id _ => ?_⟩
  · obtain ⟨d, hd, hk⟩ := hc
    rw [hsame] at hd
    exact ⟨d, hd, hk⟩
  · rw [held, hsame, held]

theorem sameStored_roster {st st' : Storage} {r : Roster} (h : r.store st = .ok st') :
    st.SameStored bindingsId st' :=
  sameStored_store (Or.inr ⟨_, rfl⟩) (Properties.not_contains_pid _ (by decide)) h

theorem sameStored_persist (t : Bindings) : st.SameStored t.id (t.persist st) := by
  unfold Bindings.persist
  split
  · next h => exact sameStored_store (Or.inl rfl) (Properties.not_contains_pid _ (by decide)) h
  · exact .refl st

theorem sameStored_bindings (t : Bindings) (pid : String) (location : Option String) :
    (t.put pid location st).1.id = t.id ∧ st.SameStored t.id (t.put pid location st).2 := by
  have hid : (t.assign pid location).id = t.id := by
    unfold Bindings.assign
    split <;> rfl
  refine ⟨hid, ?_⟩
  unfold Bindings.put
  dsimp only
  split
  · exact .refl st
  · exact hid ▸ st.sameStored_persist (t.assign pid location)

theorem sameStored_load (id home : String) (installed : List String) :
    (Bindings.load id home installed st).1.id = id ∧
      st.SameStored id (Bindings.load id home installed st).2 := by
  refine ⟨rfl, ?_⟩
  unfold Bindings.load
  dsimp only
  generalize Table.ofList _ = table
  split
  · exact st.sameStored_persist { id, home, table }
  · exact .refl st

end Storage

namespace Session

variable {name : String} {s s' s'' : Session}

/-- A later session, in whose storage only the bindings and the rosters may have changed. -/
structure SameStored (s s' : Session) : Prop where
  id : s'.bindings.id = s.bindings.id
  storage : s.storage.SameStored s.bindings.id s'.storage

theorem SameStored.refl (s : Session) : s.SameStored s := ⟨rfl, .refl _⟩

theorem SameStored.trans (h : s.SameStored s') (h' : s'.SameStored s'') : s.SameStored s'' :=
  ⟨h'.id.trans h.id, h.storage.trans (h.id ▸ h'.storage)⟩

theorem SameStored.gainsNoConfiguration (h : s.SameStored s') :
    s.storage.GainsNoConfiguration s'.storage := h.storage.toGainsNoConfiguration

theorem foldl_sameStored {α : Type} {f : Session → α → Session}
    (hf : ∀ (s : Session) (a : α), s.SameStored (f s a)) (l : List α) (s : Session) :
    s.SameStored (l.foldl f s) := by
  induction l generalizing s with
  | nil => exact .refl s
  | cons a rest ih => exact (hf s a).trans (ih (f s a))

variable (s)

theorem change_sameStored (h : Handle) (f : Record → Record) : s.SameStored (s.change h f) :=
  ⟨rfl, .refl _⟩

theorem schedule_sameStored (t : Task) : s.SameStored (s.schedule t) := ⟨rfl, .refl _⟩

theorem announce_sameStored (c : Change) (h : Handle) : s.SameStored (s.announce c h) := by
  unfold announce
  split
  · exact .refl s
  · exact ⟨rfl, .refl _⟩

theorem assignBinding_sameStored (pid : String) (location : Option String) :
    s.SameStored (s.assignBinding pid location) := by
  obtain ⟨hid, hst⟩ := s.storage.sameStored_bindings s.bindings pid location
  exact ⟨hid, hst⟩

theorem keepRoster_sameStored (r : Roster) : s.SameStored (s.keepRoster r) := ⟨rfl, .refl _⟩

variable {s}

theorem storeRoster_sameStored {r : Roster} {storage : Storage}
    (h : r.store s.storage = .ok storage) :
    s.SameStored ({ s with storage } : Session) :=
  ⟨rfl, Storage.sameStored_roster h⟩

/-- A storage of one backend, which holds no configuration that is not cached. -/
structure Stocked (name : String) (s : Session) : Prop where
  chain : ∃ rank, s.storage.chain = [⟨rank, name⟩]
  homes : ∀ pid h, s.view.cached.get? pid = some h → (s.record h).home = name
  kept : ∀ pid, (s.storage.backend name).HasConfiguration pid → s.view.cached.get? pid ≠ none

namespace Stocked

/-- Work that stores no configuration and changes neither cache nor homes. -/
theorem of_gainsNoConfiguration (hs : s.Stocked name)
    (ht : s.storage.GainsNoConfiguration s'.storage)
    (hc : s'.view.cached = s.view.cached) (hh : ∀ h, (s'.record h).home = (s.record h).home) :
    s'.Stocked name where
  chain := by
    rw [ht.chain]
    exact hs.chain
  homes := by
    intro pid h hp
    rw [hc] at hp
    rw [hh, hs.homes pid h hp]
  kept := by
    intro pid hp
    rw [hc]
    exact hs.kept pid (ht.configurations name pid hp)

/-- A configuration is stored that is cached. -/
theorem store (hs : s.Stocked name) {home pid : String} {d : Properties} {storage : Storage}
    (hc : s.view.cached.get? pid ≠ none) (h : s.storage.store home pid d = .ok storage) :
    ({ s with storage } : Session).Stocked name := by
  refine ⟨?_, hs.homes, fun pid' hp => ?_⟩
  · rw [Storage.store_eq h]
    exact hs.chain
  · rcases Storage.hasConfiguration_store h hp with ⟨rfl, -⟩ | hp
    · exact hc
    · exact hs.kept pid' hp

/-- A cached configuration is deleted and leaves the cache. -/
theorem drop (hs : s.Stocked name) {pid : String} {h : Handle} {storage : Storage}
    (hc : s.view.cached.get? pid = some h)
    (hst : s.storage.delete (s.record h).home pid = .ok storage)
    (ht : storage.GainsNoConfiguration s'.storage)
    (hcached : s'.view.cached = s.view.cached.erase pid)
    (hh : ∀ h, (s'.record h).home = (s.record h).home) : s'.Stocked name := by
  have he := Storage.delete_eq hst
  rw [hs.homes pid h hc] at he
  refine ⟨?_, ?_, ?_⟩
  · rw [ht.chain, he]
    exact hs.chain
  · intro pid' h' hp
    rw [hcached, Table.get?_erase] at hp
    split at hp
    · cases hp
    · rw [hh, hs.homes pid' h' hp]
  · intro pid' hp
    have hp' := ht.configurations name pid' hp
    rw [he, Storage.backend_withBackend, if_pos rfl] at hp'
    obtain ⟨hne, hp''⟩ := (s.storage.backend name).hasConfiguration_remove hp'
    rw [hcached, Table.get?_erase_of_ne _ hne]
    exact hs.kept pid' hp''

theorem link_eq (hs : s.Stocked name) {l : Link} (hl : l ∈ s.storage.chain) :
    l.backend = name := by
  obtain ⟨rank, hc⟩ := hs.chain
  rw [hc, List.mem_singleton] at hl
  rw [hl]

theorem home_eq (hs : s.Stocked name) {home : String} (h : s.storage.primary = .ok home) :
    home = name := by
  obtain ⟨rank, hc⟩ := hs.chain
  unfold Storage.primary at h
  rw [hc] at h
  cases h
  rfl

/-- Nothing is found in the storage that is not cached. -/
theorem configuration_eq (hs : s.Stocked name) (pid : String) :
    (s.configuration pid).2 = s ∧
      ∀ found, (s.configuration pid).1 = .ok found → found = s.view.cached.get? pid := by
  unfold configuration
  split
  · next h hc => exact ⟨rfl, fun _ hf => by cases hf; exact hc.symm⟩
  · next hc =>
    have hnone : s.view.cached.get? pid = none := hc
    split
    · exact ⟨rfl, fun _ hf => by cases hf; exact hnone.symm⟩
    · next home hf =>
      split
      · exact ⟨rfl, fun _ hf => by cases hf⟩
      · next d hl =>
        split
        · exact ⟨rfl, fun _ hf => by cases hf; exact hnone.symm⟩
        · next hk =>
          -- a dictionary with a pid would have to be cached
          exfalso
          have hhome : home = name := by
            unfold Storage.firstHaving at hf
            obtain ⟨l, hfound, rfl⟩ := Option.map_eq_some_iff.mp hf
            exact hs.link_eq (List.mem_of_find?_eq_some hfound)
          subst hhome
          refine hs.kept pid ⟨d, ?_, by simpa using hk⟩ hnone
          unfold Storage.load Backend.load at hl
          split at hl
          · cases hl
          · split at hl
            · next d' hd =>
              cases hl
              exact hd
            · cases hl

end Stocked
end Session
end Provisioning
