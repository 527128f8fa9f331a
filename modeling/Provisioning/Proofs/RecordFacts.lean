import Provisioning.Session.Basic

/-! # Records under small changes

What a binding, a watermark and a change do to the parts of a record that deliveries ask for:
its owner, and how far each consumer has been served; and that what is stored for a change is
what the changed record comes to.
-/
namespace Provisioning

namespace Properties

variable (p : Properties) (pid : String) (factoryPid : Option String)

theorem lower_pidKey_ne : Text.lower pidKey ≠ Text.lower factoryPidKey := by decide

theorem get?_stamp_pidKey : (p.stamp pid factoryPid).get? pidKey = some (.text pid) := by
  unfold stamp assignText
  cases factoryPid with
  | none => rw [Table.get?_erase, if_neg lower_pidKey_ne, Table.get?_put_self]
  | some f => rw [Table.get?_put_of_ne _ lower_pidKey_ne, Table.get?_put_self]

theorem get?_stamp_factoryPidKey :
    (p.stamp pid factoryPid).get? factoryPidKey = factoryPid.map .text := by
  unfold stamp assignText
  cases factoryPid with
  | none => rw [Table.get?_erase, if_pos rfl, Option.map_none]
  | some f => rw [Table.get?_put_self, Option.map_some]

/-- Setting the automatic pids once more changes nothing. -/
theorem stamp_stamp :
    stamp (stamp p pid factoryPid) pid factoryPid = stamp p pid factoryPid := by
  rw [stamp, Table.put_of_get? (p.get?_stamp_pidKey pid factoryPid)]
  have hfactory := p.get?_stamp_factoryPidKey pid factoryPid
  cases factoryPid with
  | none => exact Table.erase_of_get?_eq_none hfactory
  | some f => exact Table.put_of_get? hfactory

end Properties

namespace Record

variable (r : Record)

/-! ### Watermarks -/

theorem watermark?_forget (service service' : Nat) :
    (r.forget service).watermark? service' =
      if service' = service then none else r.watermark? service' := by
  unfold forget watermark?
  simp only
  induction r.watermarks with
  | nil => simp
  | cons w rest ih =>
    obtain ⟨id, n⟩ := w
    by_cases hid : id = service
    · subst hid
      by_cases he : service' = id
      · subst he
        simpa using ih
      · have he' : (service' == id) = false := by simpa using he
        simp only [bne_self_eq_false, Bool.false_eq_true, not_false_eq_true,
          List.filter_cons_of_neg, List.lookup_cons, he'] at ih ⊢
        exact ih
    · have hk : (id != service) = true := by simpa using hid
      rw [List.filter_cons_of_pos (by simpa using hk), List.lookup_cons, List.lookup_cons, ih]
      by_cases he : service' = id
      · subst he
        simp [hid]
      · have he' : (service' == id) = false := by simpa using he
        simp only [he']

theorem watermark?_note (service service' generation : Nat) :
    (r.note service generation).watermark? service' =
      if service' = service then
        some (((r.watermark? service).map (max generation)).getD generation)
      else r.watermark? service' := by
  unfold note
  rw [watermark?]
  simp only [List.lookup_cons]
  by_cases he : service' = service
  · subst he
    simp
  · have he' : (service' == service) = false := by simpa using he
    simp only [he', he, if_false]
    have hf := r.watermark?_forget service service'
    rw [if_neg he] at hf
    exact hf

/-- A noted generation is below the mark from then on. -/
theorem le_watermark?_note (service generation : Nat) :
    ∃ w, (r.note service generation).watermark? service = some w ∧ generation ≤ w := by
  rw [watermark?_note, if_pos rfl]
  refine ⟨_, rfl, ?_⟩
  cases r.watermark? service with
  | none => exact Nat.le_refl _
  | some w => exact Nat.le_max_left _ _

/-- Noting a generation never lowers a mark. -/
theorem watermark?_note_mono {service service' generation w : Nat}
    (h : r.watermark? service' = some w) :
    ∃ w', (r.note service generation).watermark? service' = some w' ∧ w ≤ w' := by
  rw [watermark?_note]
  by_cases he : service' = service
  · subst he
    rw [if_pos rfl, h]
    exact ⟨_, rfl, Nat.le_max_right _ _⟩
  · rw [if_neg he]
    exact ⟨w, h, Nat.le_refl _⟩

theorem deliveredTo_eq_true_iff {service generation : Nat} :
    r.deliveredTo service generation = true ↔
      ∃ w, r.watermark? service = some w ∧ generation ≤ w := by
  unfold deliveredTo
  cases r.watermark? service with
  | none => simp
  | some w => simp

theorem deliveredTo_eq_false_iff {service generation : Nat} :
    r.deliveredTo service generation = false ↔
      ∀ w, r.watermark? service = some w → w < generation := by
  unfold deliveredTo
  cases r.watermark? service with
  | none => simp
  | some w => simp

/-- A generation that is new to a consumer becomes its mark. -/
theorem watermark?_note_new {service generation : Nat}
    (h : ∀ w, r.watermark? service = some w → w ≤ generation) :
    (r.note service generation).watermark? service = some generation := by
  rw [watermark?_note, if_pos rfl]
  cases hw : r.watermark? service with
  | none => rfl
  | some w => simp [Nat.max_eq_left (h w hw)]

/-! ### Owners -/

theorem owner_bind (location : String) :
    (r.bind location).owner = some (r.owner.getD location) := by
  unfold bind
  split
  · next h =>
    obtain ⟨o, ho⟩ := Option.isSome_iff_exists.mp h
    rw [ho, Option.getD_some]
  · next h =>
    have hn : r.owner = none := by simpa using h
    rw [hn, Option.getD_none]
    have hs : r.staticLocation = none := by
      unfold owner at hn
      cases hst : r.staticLocation with
      | none => rfl
      | some l => rw [hst] at hn; simp at hn
    simp [owner, hs]

theorem owner_relocate (location : Option String) : (r.relocate location).owner = location := by
  cases location <;> rfl

theorem owner_of_isBoundTo {location : String} (h : r.isBoundTo location = true) :
    r.owner = some location := by
  unfold isBoundTo at h
  simp only [Bool.and_eq_true, Option.isNone_iff_eq_none, beq_iff_eq] at h
  simp [owner, h.1, h.2]

/-- Releasing a record touches nothing but its dynamic location. -/
theorem release_eq (location : String) :
    r.release location = { r with
      dynamicLocation := if r.isBoundTo location then none else r.dynamicLocation } := by
  unfold release
  split <;> rfl

/-! ### What is stored -/

/-- What is stored before properties are committed is what the record comes to then. -/
theorem persisted_commit (p : Properties) : (r.commit p).persisted = r.persistedWith p := by
  have hs : r.stamp (r.stamp p) = r.stamp p := Properties.stamp_stamp p r.pid r.factoryPid
  show r.dictionary (some (r.stamp p)) r.staticLocation = r.dictionary (some p) r.staticLocation
  unfold dictionary
  rw [Option.getD_some, Option.getD_some, hs]

/-! ### What no task changes -/

/-- Two states of a record with the same identity, properties, static location, generation and
standing. -/
structure SameContent (r r' : Record) : Prop where
  pid : r'.pid = r.pid
  factoryPid : r'.factoryPid = r.factoryPid
  home : r'.home = r.home
  properties : r'.properties = r.properties
  staticLocation : r'.staticLocation = r.staticLocation
  counter : r'.counter = r.counter
  deleted : r'.deleted = r.deleted

theorem SameContent.refl : r.SameContent r := ⟨rfl, rfl, rfl, rfl, rfl, rfl, rfl⟩

theorem SameContent.trans {r r' r'' : Record} (h : r.SameContent r') (h' : r'.SameContent r'') :
    r.SameContent r'' :=
  ⟨h'.pid.trans h.pid, h'.factoryPid.trans h.factoryPid, h'.home.trans h.home,
    h'.properties.trans h.properties, h'.staticLocation.trans h.staticLocation,
    h'.counter.trans h.counter, h'.deleted.trans h.deleted⟩

theorem SameContent.target {r r' : Record} (h : r.SameContent r') : r'.target = r.target := by
  unfold Record.target
  rw [h.pid, h.factoryPid]

theorem sameContent_bind (location : String) : r.SameContent (r.bind location) := by
  unfold bind
  split
  · exact SameContent.refl r
  · exact ⟨rfl, rfl, rfl, rfl, rfl, rfl, rfl⟩

theorem sameContent_release (location : String) : r.SameContent (r.release location) := by
  rw [r.release_eq]
  exact ⟨rfl, rfl, rfl, rfl, rfl, rfl, rfl⟩

theorem sameContent_note (service generation : Nat) : r.SameContent (r.note service generation) :=
  ⟨rfl, rfl, rfl, rfl, rfl, rfl, rfl⟩

theorem sameContent_forget (service : Nat) : r.SameContent (r.forget service) :=
  ⟨rfl, rfl, rfl, rfl, rfl, rfl, rfl⟩

theorem sameContent_advance (generation : Nat) : r.SameContent (r.advance generation) :=
  ⟨rfl, rfl, rfl, rfl, rfl, rfl, rfl⟩

theorem watermarks_bind (location : String) : (r.bind location).watermarks = r.watermarks := by
  unfold bind
  split <;> rfl

theorem watermark?_bind (location : String) (service : Nat) :
    (r.bind location).watermark? service = r.watermark? service := by
  unfold watermark?
  rw [watermarks_bind]

theorem delivered_bind (location : String) : (r.bind location).delivered = r.delivered := by
  unfold bind
  split <;> rfl

end Record
end Provisioning
