import Provisioning.Proofs.Rebuilding
import Provisioning.Proofs.Writing

/-! # Storing a record and loading it again

When a record comes back from its dictionary as it went in.  Two things do not come back: properties
with nothing in them but the automatic pids, which load as none, and an entry under the key of the
static location, which never loads into the properties.  A record that was loaded has neither, so
that loading and storing settle after one round, whatever the dictionary was.
-/
namespace Provisioning
namespace Properties

variable {p : Properties} {key : String}

/-! ### Automatic pids -/

/-- Writing an automatic pid does not give properties any substance. -/
theorem substantial_put (hkey : isAutomaticPid key = true) (v : Value) :
    substantial (p.put key v) = p.substantial := by
  unfold substantial
  rw [Table.keys_put]
  split
  · rfl
  · simp [hkey]

/-- Nor does removing one take it away. -/
theorem substantial_erase (hkey : isAutomaticPid key = true) :
    substantial (p.erase key) = p.substantial := by
  have hother (k : String) :
      (!(Text.lower k == Text.lower key) && !isAutomaticPid k) = !isAutomaticPid k := by
    by_cases he : Text.lower k = Text.lower key
    · have hk : isAutomaticPid k = true := by rwa [isAutomaticPid, he, ← isAutomaticPid]
      rw [hk, Bool.not_true, Bool.and_false]
    · simp [he]
  unfold substantial
  rw [Table.keys_erase, List.any_filter]
  simp only [hother]

theorem substantial_stamp (pid : String) (factoryPid : Option String) :
    (p.stamp pid factoryPid).substantial = p.substantial := by
  have hpid : isAutomaticPid pidKey = true := by decide
  have hfactory : isAutomaticPid factoryPidKey = true := by decide
  unfold stamp assignText
  cases factoryPid with
  | none => exact (substantial_erase hfactory).trans (substantial_put hpid _)
  | some f => exact (substantial_put hfactory _).trans (substantial_put hpid _)

end Properties

namespace Record

variable {pid home : String} {d : Properties} {r : Record}

/-! ### What is loaded -/

/-- A record to which nothing has happened since it was loaded. -/
structure Loaded (pid home : String) (r : Record) : Prop where
  shape : r = { pid, factoryPid := r.factoryPid, home, staticLocation := r.staticLocation
                properties := r.properties, counter := if r.properties.isSome then 1 else 0 }
  stamped : r.Stamped
  plain : r.Plain
  substantial : ∀ p, r.properties = some p → p.substantial = true

theorem ofDictionary_loaded (h : ofDictionary pid home d = .ok r) : Loaded pid home r := by
  have hstamped : r.Stamped := (Session.ofDictionary_stamped h).2
  unfold ofDictionary at h
  split at h
  · cases h
  dsimp only at h
  split at h
  · next hsome =>
    cases h
    refine ⟨rfl, hstamped, ?_, ?_⟩
    · rintro _ ⟨⟩
      rw [stamp, Properties.get?_stamp_locationKey, Table.get?_erase_self]
    · rintro _ ⟨⟩
      rw [stamp, Properties.substantial_stamp]
      exact hsome
  · cases h
    refine ⟨rfl, hstamped, ?_, ?_⟩
    · rintro _ ⟨⟩
    · rintro _ ⟨⟩

/-- There is only one such record with given contents. -/
theorem Loaded.eq {r' : Record} (h : Loaded pid home r) (h' : Loaded pid home r')
    (hfactory : r'.factoryPid = r.factoryPid) (hlocation : r'.staticLocation = r.staticLocation)
    (hproperties : r'.properties = r.properties) : r' = r := by
  rw [h'.shape, h.shape, hfactory, hlocation, hproperties]

/-! ### Storing and loading again -/

/-- Properties that can be told from what is stored of them. -/
def Recoverable (r : Record) : Prop :=
  r.Plain ∧ ∀ p, r.properties = some p → p.substantial = true

theorem recoverable_iff : r.Recoverable ↔ r.properties = none ∨ ∃ p, r.properties = some p ∧
    p.contains Properties.locationKey = false ∧
      ∃ k ∈ p.keys, Properties.isAutomaticPid k = false := by
  unfold Recoverable Plain Properties.substantial
  simp only [Table.contains_eq_isSome]
  cases r.properties with
  | none => simp
  | some p => simp

/-- What is stored of a record is loaded as that record if its properties can be recovered, and as
another one if they cannot. -/
theorem reload_iff (hs : r.Stamped) (home : String) :
    ∃ r', ofDictionary r.pid home r.persisted = .ok r' ∧
      ((r'.factoryPid = r.factoryPid ∧ r'.staticLocation = r.staticLocation ∧
        r'.properties = r.properties) ↔ r.Recoverable) := by
  obtain ⟨r', hr', rebuilt⟩ := ofDictionary_persisted hs home
  refine ⟨r', hr', ?_, ?_⟩
  · rintro ⟨-, -, hproperties⟩
    have loaded := ofDictionary_loaded hr'
    exact ⟨fun p hp => loaded.plain p (hproperties.trans hp),
      fun p hp => loaded.substantial p (hproperties.trans hp)⟩
  · rintro ⟨plain, substantial⟩
    refine ⟨rebuilt.factoryPid, rebuilt.staticLocation plain, ?_⟩
    rw [rebuilt.properties plain]
    cases hp : r.properties with
    | none => rfl
    | some p => rw [Option.filter_some, if_pos (substantial p hp)]

/-- Loading settles. -/
theorem reload_loaded (h : ofDictionary pid home d = .ok r) :
    ofDictionary pid home r.persisted = .ok r := by
  have loaded := ofDictionary_loaded h
  have hpid : r.pid = pid := congrArg Record.pid loaded.shape
  obtain ⟨r', hr', recovers⟩ := reload_iff loaded.stamped home
  rw [hpid] at hr'
  obtain ⟨hfactory, hlocation, hproperties⟩ := recovers.mpr ⟨loaded.plain, loaded.substantial⟩
  rw [hr', loaded.eq (ofDictionary_loaded hr') hfactory hlocation hproperties]

theorem foldl_commit (history : List Properties) : ∀ {r : Record}, r.Stamped →
    (history.foldl commit r).Stamped ∧ (history.foldl commit r).pid = r.pid := by
  induction history with
  | nil => exact fun hs => ⟨hs, rfl⟩
  | cons p history ih =>
    intro r _
    refine ih (r := r.commit p) ?_
    rintro _ ⟨⟩
    exact Properties.stamp_stamp _ _ _

/-- **Reloading.**  Whatever is committed to a record, its dictionary can be loaded.  The record has
then its factory, its static location and its properties again exactly if it has no properties, or
they leave the key of the static location alone and have a key beside the automatic pids.  Of any
dictionary at all, loading, storing and loading again gives what loading gives. -/
theorem reload_recovers_iff (pid home : String) (factoryPid location : Option String)
    (history : List Properties) :
    let r : Record := history.foldl commit { pid, factoryPid, home, staticLocation := location }
    (∃ r', ofDictionary pid home r.persisted = .ok r' ∧
      ((r'.factoryPid = r.factoryPid ∧ r'.staticLocation = r.staticLocation ∧
          r'.properties = r.properties) ↔
        r.properties = none ∨ ∃ p, r.properties = some p ∧
          p.contains Properties.locationKey = false ∧
            ∃ k ∈ p.keys, Properties.isAutomaticPid k = false)) ∧
    ∀ d : Properties,
      (ofDictionary pid home d >>= fun r' => ofDictionary pid home r'.persisted) =
        ofDictionary pid home d := by
  intro r
  obtain ⟨hstamped, hpid⟩ : r.Stamped ∧ r.pid = pid := foldl_commit history fun _ hp => nomatch hp
  constructor
  · obtain ⟨r', hr', recovers⟩ := reload_iff hstamped home
    exact ⟨r', hpid ▸ hr', recovers.trans recoverable_iff⟩
  · intro d
    cases h : ofDictionary pid home d with
    | error e => rfl
    | ok r' => exact reload_loaded h

/-- A key that is spelled otherwise is the key of the static location nevertheless, and a number
under it is lost. -/
example : (ofDictionary "p" "m" (.ofList [("Service.BundleLocation", .integer 5), ("a", .text "b")])
    ).toOption.map (fun r => (r.staticLocation, r.properties.map (·.entries))) =
      some (none, some [("a", .text "b"), ("service.pid", .text "p")]) := by rfl

end Record
end Provisioning
