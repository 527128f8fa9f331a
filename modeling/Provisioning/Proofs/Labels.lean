import Provisioning.Proofs.Entries

/-! # Dictionaries under their own pids

The dictionary of a record carries its pid, and is stored under it; what else the manager stores
carries no pid.  So dictionaries that are stored under their own pids at the start are so whenever
calls, hooks and tasks have run.
-/
namespace Provisioning

/-- Every dictionary that carries a pid is stored under it. -/
def Backend.Labelled (b : Backend) : Prop :=
  ∀ id d pid, b.dictionaries.get? id = some d →
    Properties.text? d Properties.pidKey = some pid → pid = id

/-- A storage in which dictionaries are stored under the pids that they carry. -/
def Storage.Labelled (st : Storage) : Prop := ∀ name, (st.backend name).Labelled

/-- The rule that a dictionary which carries a pid stands under it. -/
def EntryRule.labels : EntryRule := fun _ id d =>
  ∀ pid, Properties.text? d Properties.pidKey = some pid → pid = id

namespace Storage

variable {st : Storage}

theorem labelled_iff_obeys : st.Labelled ↔ st.Obeys .labels :=
  ⟨fun h name id d hd pid => h name id d pid hd, fun h name id d pid hd => h name id d hd pid⟩

end Storage

/-- What the manager stores beside the configurations carries no pid. -/
theorem EntryRule.admitsReserved_labels (bindingsId : String) :
    EntryRule.labels.AdmitsReserved bindingsId := by
  have hunnamed : ∀ {key : String} {v : Value},
      Text.lower Properties.pidKey ≠ Text.lower key →
        Properties.text? (Table.empty.put key v) Properties.pidKey = none := by
    intro key v hkey
    have hnone := Properties.not_contains_pid v hkey
    rw [Table.contains_eq_isSome, Option.isSome_eq_false_iff, Option.isNone_iff_eq_none] at hnone
    rw [Properties.text?, hnone]
    rfl
  refine ⟨fun name pairs pid htext => ?_, fun name r pid htext => ?_⟩
  · rw [Bindings.encode, hunnamed (by decide)] at htext
    cases htext
  · rw [Roster.dictionary, hunnamed (by decide)] at htext
    cases htext

/-- Whatever others write to a backend is stored under the pid that it carries; and nobody submits
tasks, or ends the session. -/
def Action.KeepsLabels : Action → Prop
  | .submit _ | .shutdown => False
  | .around (.backend _ change) => ∀ b : Backend, b.Labelled → (change b).Labelled
  | _ => True

namespace Session

variable {s : Session}

/-- What is stored of a record carries its pid. -/
theorem enters_labels (s : Session) : s.Enters .labels := by
  intro name pid h r _ hpid _ pid' htext
  rw [Record.pid_persisted, Option.some_inj] at htext
  rw [← htext, hpid]

theorem step_labels (ht : s.Tidy) (h : s.storage.Labelled) {a : Action} (ha : a.KeepsLabels) :
    (s.step a).2.storage.Labelled := by
  by_cases hback : ∃ name change, a = .around (.backend name change)
  · obtain ⟨name, change, rfl⟩ := hback
    intro name'
    show ((s.storage.withBackend name (change (s.storage.backend name))).backend name').Labelled
    rw [Storage.backend_withBackend]
    split
    · exact ha _ (h name)
    · exact h name'
  · have habides : s.Abides .labels :=
      ⟨EntryRule.admitsReserved_labels _, Storage.labelled_iff_obeys.mp h⟩
    have hspares := Action.spares_of_ne_backend fun name change he => hback ⟨name, change, he⟩
    exact Storage.labelled_iff_obeys.mpr (habides.step ht.filed hspares (enters_labels _)).obeys

/-- **Labels stay right** in any run of calls, hooks and tasks. -/
theorem run_labels (ht : s.Tidy) (h : s.storage.Labelled) {actions : List Action}
    (ha : ∀ a ∈ actions, a.KeepsLabels) : (s.run actions).storage.Labelled := by
  induction actions generalizing s with
  | nil => exact h
  | cons a rest ih =>
    have hkeeps := ha a List.mem_cons_self
    have hall : Within .all a := by
      refine ⟨?_, ?_, fun _ _ => trivial, fun _ _ _ => trivial⟩
      · rintro t rfl
        exact hkeeps
      · rintro rfl
        exact hkeeps
    have hstep := step_strokes ht ⟨fun _ => trivial, fun _ => trivial⟩ hall
    exact ih (hstep.tidy ht) (step_labels ht h hkeeps) fun b hb => ha b (List.mem_cons_of_mem a hb)

/-- A manager that starts writes nothing but its bindings. -/
theorem start_labels {w : World} {settings : Settings} (hs : start w settings = .ok s)
    (hw : w.storage.Labelled) : s.storage.Labelled :=
  Storage.labelled_iff_obeys.mpr (start_obeys hs (EntryRule.admitsReserved_labels _)
    (Storage.labelled_iff_obeys.mp hw))

end Session
end Provisioning
