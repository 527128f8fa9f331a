import Provisioning.Proofs.Strokes

/-! # Storage that does not fail

The one backend of a manager, when nobody makes it fail: whatever is written is written, and what is
held can be read.  No stroke changes that, so it is a matter of who else has the backend.
-/
namespace Provisioning

namespace Storage

variable {name : String} {st st' : Storage}

/-- One backend, which fails neither to write nor to read. -/
structure Sound (name : String) (st : Storage) : Prop where
  chain : ∃ rank, st.chain = [⟨rank, name⟩]
  writable : ∀ id, (st.backend name).writable id = true
  readable : (st.backend name).unreadable = []

/-- The members that are stored for a factory. -/
def enlisted (st : Storage) (name factoryPid : String) : List String :=
  ((st.held name (Roster.idOf factoryPid)).map Roster.listed).getD []

namespace Sound

/-- A backend may get another content. -/
theorem withBackend (h : st.Sound name) {home : String} {b : Backend}
    (hw : ∀ id, b.writable id = (st.backend home).writable id)
    (hr : b.unreadable = (st.backend home).unreadable) : (st.withBackend home b).Sound name := by
  refine ⟨h.chain, fun id => ?_, ?_⟩
  · rw [backend_withBackend]
    split
    · next he =>
      rw [hw, ← he]
      exact h.writable id
    · exact h.writable id
  · rw [backend_withBackend]
    split
    · next he =>
      rw [hr, ← he]
      exact h.readable
    · exact h.readable

theorem store (h : st.Sound name) {home id : String} {d : Properties}
    (hst : st.store home id d = .ok st') : st'.Sound name := by
  rw [store_eq hst]
  exact h.withBackend (fun _ => rfl) rfl

theorem delete (h : st.Sound name) {home id : String} (hst : st.delete home id = .ok st') :
    st'.Sound name := by
  rw [delete_eq hst]
  exact h.withBackend (fun _ => rfl) rfl

theorem exists_store (h : st.Sound name) (id : String) (d : Properties) :
    ∃ st', st.store name id d = .ok st' := ⟨_, store_of_writable (h.writable id) d⟩

theorem not_mem_unreadable (h : st.Sound name) (id : String) :
    id ∉ (st.backend name).unreadable := by
  rw [h.readable]
  exact List.not_mem_nil

theorem primary (h : st.Sound name) : st.primary = .ok name := by
  obtain ⟨rank, hc⟩ := h.chain
  rw [Storage.primary, hc]

theorem firstHaving (h : st.Sound name) (id : String) :
    st.firstHaving id = (st.held name id).map fun _ => name := by
  obtain ⟨rank, hc⟩ := h.chain
  rw [Storage.firstHaving, hc, List.find?_singleton, Backend.holds, Table.contains_eq_isSome, held]
  cases (st.backend name).dictionaries.get? id <;> rfl

theorem load (h : st.Sound name) {id : String} {d : Properties} (hd : st.held name id = some d) :
    st.load name id = .ok d := by
  unfold held at hd
  rw [Storage.load, Backend.load, h.readable, hd]
  rfl

theorem roster (h : st.Sound name) {f : String} {d : Properties}
    (hd : st.held name (Roster.idOf f) = some d) :
    Roster.load f name st = .ok (Roster.ofList f name (Roster.listed d)) := by
  rw [Roster.load, h.load hd]
  rfl

/-- The table of bindings is written, or the storage stays as it is. -/
theorem persist (h : st.Sound name) (t : Bindings) : (t.persist st).Sound name := by
  rcases t.persist_cases st with he | hst
  · rw [he]
    exact h
  · exact h.store hst

theorem put (h : st.Sound name) (t : Bindings) (pid : String) (location : Option String) :
    (t.put pid location st).2.Sound name := by
  unfold Bindings.put
  dsimp only
  split
  · exact h
  · exact h.persist _

theorem withdrawAll (h : st.Sound name) (t : Bindings) (pids : List String) :
    (Bindings.withdrawAll pids (t, st)).2.Sound name := by
  induction pids generalizing t st with
  | nil => exact h
  | cons pid rest ih => exact ih (h.put t pid none) _

end Sound
end Storage

namespace Session

variable {scope : Scope} {name : String} {s s' : Session}

/-- Every factory has a roster then: a cached one, a stored one or a new one. -/
theorem exists_factory (h : s.storage.Sound name) (f : String) : ∃ r, (s.factory f).1 = .ok r := by
  unfold factory
  split
  · exact ⟨_, rfl⟩
  · rw [h.firstHaving]
    cases hd : s.storage.held name (Roster.idOf f) with
    | none =>
      dsimp only [Option.map_none]
      rw [h.primary]
      exact ⟨_, rfl⟩
    | some d =>
      dsimp only [Option.map_some]
      rw [h.roster hd]
      exact ⟨_, rfl⟩

/-- No stroke makes a backend fail, unless somebody else does. -/
theorem Stroke.sound (hs : Stroke scope s s') (hno : ¬scope.tampering)
    (h : s.storage.Sound name) : s'.storage.Sound name := by
  have hput : ∀ {pid location},
      (s'.bindings, s'.storage) = s.bindings.put pid location s.storage →
        s'.storage.Sound name := by
    intro pid location written
    have hstorage : s'.storage = _ := congrArg Prod.snd written
    rw [hstorage]
    exact h.put s.bindings pid location
  cases hs with
  | sameButMarks hsame => exact hsame.storage ▸ h
  | adopt _ _ _ _ _ same | commit _ same | found _ _ _ _ same | lag _ _ _ _ same
  | queue _ _ same => exact same.storage ▸ h
  | store _ stored | enlist _ _ _ stored => exact h.store stored
  | remove _ stored => exact h.delete stored
  | bind _ _ _ _ _ written => exact hput written
  | settle _ _ _ written | drop _ _ _ written => exact hput written
  | vacate _ _ _ _ _ _ _ written =>
    have hstorage : s'.storage = _ := congrArg Prod.snd written
    rw [hstorage]
    exact h.withdrawAll s.bindings _
  | tamper within => exact absurd within hno

theorem Strokes.sound (hs : Strokes scope s s') (hno : ¬scope.tampering)
    (h : s.storage.Sound name) : s'.storage.Sound name := by
  induction hs with
  | refl => exact h
  | tail _ hlast ih => exact hlast.sound hno ih

end Session
end Provisioning
