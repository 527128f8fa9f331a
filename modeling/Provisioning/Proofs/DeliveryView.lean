import Provisioning.Session.Step

/-! # What deliveries see of a session

A delivery depends on the directory, the access check, the plugins and the records, and it
changes the records and the callbacks so far; what is known of configurations and factories
decides which deliveries are queued.  The statistics, the notices, the bindings and the storage
go along with them and decide nothing.  The view of a session keeps the first and drops the
second, so that each operation of a session is described by what it does to the view, once, and
no later argument opens an operation again.
-/
namespace Provisioning

/-- What deliveries depend on and change. -/
structure View where
  directory : Directory
  access : Option AccessCheck
  plugins : Pipeline
  records : List Record
  calls : List Call
  /-- The cached record of each pid. -/
  cached : ExactTable Handle
  /-- The cached roster of each factory. -/
  rosters : ExactTable Roster
  waiting : List Task
  accepting : Bool

namespace View

variable (v : View)

/-- The record of a handle; one that was never given out stands for an empty record. -/
def record (h : Handle) : Record :=
  (v.records[h]?).getD { pid := "", factoryPid := none, home := "" }

/-- Changes the record of a handle. -/
def change (h : Handle) (f : Record → Record) : View :=
  { v with records := v.records.modify h f }

/-- Adds a record. -/
def enroll (r : Record) : View := { v with records := v.records ++ [r] }

/-- Puts a roster in place. -/
def file (r : Roster) : View := { v with rosters := v.rosters.put r.factoryPid r }

/-- Whether the cached roster of a factory lists a pid. -/
def lists (factoryPid pid : String) : Bool :=
  (v.rosters.get? factoryPid).any fun r => r.contains pid

/-- Adds a task, if any are accepted. -/
def enqueue (t : Task) : View :=
  if v.accepting then { v with waiting := v.waiting ++ [t] } else v

/-- Adds the call that is made to a consumer of the right kind. -/
def hear (t : Target) (c : Consumer) (delivered : Option Properties)
    (occasion : Option Occasion) : View :=
  { v with calls := v.calls ++ ((t.call? c delivered).map fun m => ⟨c, m, occasion⟩).toList }

/-- Whether a consumer at a location may see what the given owner owns. -/
def permits (location : String) (owner : Option String) : Bool :=
  Visibility.permits v.access location owner

theorem permits_of_access {v v' : View} (h : v'.access = v.access) (location : String)
    (owner : Option String) : v'.permits location owner = v.permits location owner := by
  rw [permits, permits, h]

/-- The consumers that a record is delivered to, in order. -/
def targets (h : Handle) : List Consumer := (v.record h).target.resolve v.directory

/-! ### Records after a change -/

theorem record_change (h h' : Handle) (f : Record → Record) :
    (v.change h f).record h' =
      if h' = h ∧ h < v.records.length then f (v.record h) else v.record h' := by
  unfold record change
  simp only [List.getElem?_modify]
  by_cases he : h = h'
  · subst he
    by_cases hl : h < v.records.length
    · simp [hl]
    · simp [hl]
  · have he' : h' ≠ h := fun e => he e.symm
    simp [he, he']

/-- A change that leaves a quality of every record alone leaves it alone. -/
theorem record_change_of_eq {α : Type} {q : Record → α} {f : Record → Record}
    (hf : ∀ r, q (f r) = q r) (h h' : Handle) :
    q ((v.change h f).record h') = q (v.record h') := by
  rw [record_change]
  split
  · next he => rw [hf, he.1]
  · rfl

theorem record_change_ne {h h' : Handle} (hne : h' ≠ h) (f : Record → Record) :
    (v.change h f).record h' = v.record h' := by
  rw [record_change, if_neg fun e => hne e.1]

theorem record_change_self {h : Handle} (hl : h < v.records.length) (f : Record → Record) :
    (v.change h f).record h = f (v.record h) := by
  rw [record_change, if_pos ⟨rfl, hl⟩]

/-- A record that is not there stands for an empty one. -/
theorem record_of_length_le {v : View} {h : Handle} (hge : v.records.length ≤ h) :
    v.record h = { pid := "", factoryPid := none, home := "" } := by
  unfold record
  rw [List.getElem?_eq_none hge]
  rfl

theorem record_enroll_lt {h : Handle} (hl : h < v.records.length) (r : Record) :
    (v.enroll r).record h = v.record h := by
  unfold record enroll
  simp only
  rw [List.getElem?_append_left hl]

theorem record_enroll_new (r : Record) : (v.enroll r).record v.records.length = r := by
  simp [record, enroll]

theorem record_enroll_gt {h : Handle} (hl : v.records.length < h) (r : Record) :
    (v.enroll r).record h = v.record h := by
  have h₁ : v.records[h]? = none := List.getElem?_eq_none (Nat.le_of_lt hl)
  have h₂ : (v.records ++ [r])[h]? = none :=
    List.getElem?_eq_none (by rw [List.length_append]; exact hl)
  simp only [record, enroll, h₁, h₂]

@[simp] theorem length_change (h : Handle) (f : Record → Record) :
    (v.change h f).records.length = v.records.length := by
  simp [change]

@[simp] theorem record_enqueue (t : Task) (h : Handle) :
    (v.enqueue t).record h = v.record h := by
  unfold enqueue
  split <;> rfl

/-- Only the line is touched. -/
theorem enqueue_eq (t : Task) :
    v.enqueue t = { v with waiting := if v.accepting then v.waiting ++ [t] else v.waiting } := by
  unfold enqueue
  split <;> rfl

theorem enqueue_of_accepting (ha : v.accepting = true) (t : Task) :
    v.enqueue t = { v with waiting := v.waiting ++ [t] } := by
  simp [enqueue, ha]

/-! ### Rosters -/

theorem lists_file (r : Roster) (factoryPid pid : String) :
    (v.file r).lists factoryPid pid =
      if factoryPid = r.factoryPid then r.contains pid else v.lists factoryPid pid := by
  unfold lists file
  simp only [Table.get?_put]
  split <;> rfl

/-- How what is known is filed: what is cached under a pid is a record of that pid which is not
deleted, and rosters stand under their factories and list nobody twice. -/
structure Filed (v : View) : Prop where
  held : ∀ pid h, v.cached.get? pid = some h →
    h < v.records.length ∧ (v.record h).pid = pid ∧ (v.record h).deleted = false
  titled : ∀ f r, v.rosters.get? f = some r → r.factoryPid = f
  distinct : ∀ f r, v.rosters.get? f = some r → r.members.Nodup

theorem Filed.file {v : View} (hv : v.Filed) {r : Roster} (hr : r.members.Nodup) :
    (v.file r).Filed := by
  refine ⟨hv.held, ?_, ?_⟩
  · intro f r' h
    simp only [View.file, Table.get?_put] at h
    split at h
    · next hf =>
      cases h
      exact hf.symm
    · exact hv.titled f r' h
  · intro f r' h
    simp only [View.file, Table.get?_put] at h
    split at h
    · cases h
      exact hr
    · exact hv.distinct f r' h

end View

namespace Session

/-- What deliveries see of a session. -/
def view (s : Session) : View where
  directory := s.directory
  access := s.access
  plugins := s.plugins
  records := s.records
  calls := s.calls
  cached := s.cache.records
  rosters := s.cache.rosters
  waiting := s.updates.waiting
  accepting := s.updates.accepting

variable (s : Session)

theorem record_view (h : Handle) : s.view.record h = s.record h := rfl

theorem permits_view (location : String) (owner : Option String) :
    s.view.permits location owner = s.permits location owner := rfl

/-! ### The small operations -/

@[simp] theorem view_change (h : Handle) (f : Record → Record) :
    (s.change h f).view = s.view.change h f := rfl

@[simp] theorem view_schedule (t : Task) : (s.schedule t).view = s.view.enqueue t := by
  unfold schedule WorkLine.push View.enqueue view
  split <;> simp_all

@[simp] theorem view_announce (c : Change) (h : Handle) : (s.announce c h).view = s.view := by
  unfold announce
  split <;> rfl

@[simp] theorem view_assignBinding (pid : String) (location : Option String) :
    (s.assignBinding pid location).view = s.view := rfl

/-- Binding an owned record changes nothing, so that the record alone decides. -/
@[simp] theorem view_bind (h : Handle) (location : String) :
    (s.bind h location).view = s.view.change h fun r => r.bind location := by
  unfold bind
  split
  · next ho =>
    have hid : s.records.modify h (fun r => r.bind location) = s.records := by
      apply List.ext_getElem?
      intro i
      rw [List.getElem?_modify]
      by_cases hi : h = i
      · subst hi
        cases hr : s.records[h]? with
        | none => simp
        | some r =>
          have hrec : s.record h = r := by simp [record, World.record, hr]
          rw [hrec] at ho
          simp [Record.bind, ho]
      · simp [hi]
    simp only [View.change, view, hid]
  · rw [view_announce, view_assignBinding, view_change]

/-! ### Callbacks -/

@[simp] theorem view_noteCall (t : Target) (c : Consumer) (p : Option Properties)
    (o : Option Occasion) : (s.noteCall t c p o).view = s.view.hear t c p o := by
  unfold noteCall View.hear
  cases t.call? c p with
  | none => simp
  | some m => rfl

@[simp] theorem view_countResult (f : Tally → Tally) (r : Except CallbackError Unit) :
    (s.countResult f r).view = s.view := by
  cases r <;> rfl

@[simp] theorem view_revoke (h : Handle) (t : Target) (c : Consumer) :
    (s.revoke h t c).view = s.view.hear t c none (some ⟨h, s.record h, none⟩) := by
  rw [revoke, view_countResult, view_noteCall]

@[simp] theorem view_serve (h : Handle) (t : Target) (c : Consumer) (g : Nat) (p : Properties) :
    (s.serve h t c g p).view =
      (s.view.hear t c (some (s.plugins.run t.identity c.service p))
        (some ⟨h, s.record h, some (p, g)⟩)).change h fun r => r.note c.service.id g := by
  rw [serve, view_change, view_countResult, view_noteCall]
  rfl

@[simp] theorem view_greet (pid : String) (c : Consumer) (o : Option Occasion) :
    (s.greet pid c o).view = s.view.hear (.single pid) c none o := by
  rw [greet, view_countResult, view_noteCall]

@[simp] theorem view_deny : s.deny.view = s.view := rfl

@[simp] theorem view_tell (n : Notice) (l : Service) : (s.tell n l).view = s.view := by
  unfold tell
  split
  · rw [view_countResult]; rfl
  · rfl

end Session
end Provisioning
