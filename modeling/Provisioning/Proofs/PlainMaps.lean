import Mathlib.Data.List.Nodup
import Provisioning.Proofs.BindingFacts
import Provisioning.Proofs.Histories

/-! # Properties as plain maps

Properties are handed over as maps in which every spelling of a key counts.  On the way out nothing
can be lost: keys that differ when case is ignored differ all the more when it is not.

On the way in spellings of one key may meet.  A map is read by writing its entries one after the
other, so that what becomes of it is told by a history without removals: the first spelling stays
where it is, and the last value wins (`Table.Merged`).  What was read in that way goes out and comes
in again as it is.
-/
namespace Provisioning

namespace Table

variable {fold : String → String} {α : Type} {l : List (String × α)} {k n : String} {i : Nat}

/-! ### What is written one after the other -/

/-- The places in a list of named values at which a name stands, in any spelling. -/
def places (fold : String → String) (l : List (String × α)) (k : String) : Set Nat :=
  {i | ∃ e, l[i]? = some e ∧ fold e.1 = fold k}

/-- Named values after all spellings of a name have become one entry. -/
structure Merged (fold : String → String) (l entries : List (String × α)) : Prop where
  /-- There is one entry for each name that is listed. -/
  names : ∀ k, (∃ e ∈ entries, fold e.1 = fold k) ↔ (places fold l k).Nonempty
  once : entries.Pairwise fun d e => fold d.1 ≠ fold e.1
  /-- It is spelled as where the name stands first. -/
  spelling : ∀ e ∈ entries, ∃ i v, IsLeast (places fold l e.1) i ∧ l[i]? = some (e.1, v)
  /-- It has the value from where the name stands last. -/
  value : ∀ e ∈ entries, ∃ i n, IsGreatest (places fold l e.1) i ∧ l[i]? = some (n, e.2)
  /-- It comes where the name stands first. -/
  order : entries.Pairwise fun d e =>
    ∃ i j, IsLeast (places fold l d.1) i ∧ IsLeast (places fold l e.1) j ∧ i < j

/-- The history of a list of named values that are written one after the other. -/
def writing (l : List (String × α)) : List (Change α) := l.map fun e => .insert e.1 e.2

theorem ofList_eq_after (l : List (String × α)) :
    (ofList l : Table fold α) = after (writing l) := by
  rw [after, writing, List.foldl_map]
  simp only [Change.apply_insert_snd]
  rfl

theorem getElem?_writing_iff {v : α} :
    (writing l)[i]? = some (.insert n v) ↔ l[i]? = some (n, v) := by
  rw [writing, List.getElem?_map, Option.map_eq_some_iff]
  constructor
  · rintro ⟨⟨m, w⟩, he, ⟨⟩⟩
    exact he
  · exact fun he => ⟨(n, v), he, rfl⟩

/-- Nothing that is written is removed. -/
theorem standing_writing (l : List (String × α)) (k : String) :
    standing fold (writing l) k = places fold l k := by
  ext i
  constructor
  · rintro ⟨⟨n, v, hi, hn⟩, -⟩
    exact ⟨(n, v), getElem?_writing_iff.mp hi, hn⟩
  · rintro ⟨⟨n, v⟩, hi, hn⟩
    refine ⟨⟨n, v, getElem?_writing_iff.mpr hi, hn⟩, fun j m _ hj => ?_⟩
    rw [writing, List.getElem?_map, Option.map_eq_some_iff] at hj
    obtain ⟨e, -, ⟨⟩⟩ := hj

theorem firstWritten_writing_iff : FirstWritten fold (writing l) k i n ↔
    IsLeast (places fold l k) i ∧ ∃ v, l[i]? = some (n, v) := by
  rw [← standing_writing]
  constructor
  · rintro ⟨least, v, hv⟩
    exact ⟨least, v, getElem?_writing_iff.mp hv⟩
  · rintro ⟨least, v, hv⟩
    exact ⟨least, v, getElem?_writing_iff.mpr hv⟩

/-- The first spelling stays in its place, and the last value wins. -/
theorem merged_ofList (l : List (String × α)) :
    Merged fold l (ofList l : Table fold α).entries := by
  rw [ofList_eq_after]
  have tells : (after (writing l) : Table fold α).Tells (writing l) := tells_after (writing l)
  generalize (after (writing l) : Table fold α) = t at tells
  have hentry : ∀ e ∈ t.entries, t.entry? e.1 = some e := fun e he =>
    entry?_eq_some_iff.mpr ⟨he, rfl⟩
  refine ⟨fun k => ?_, List.pairwise_map.mp t.distinct, fun e he => ?_, fun e he => ?_, ?_⟩
  · rw [← standing_writing, ← tells.contains_iff, contains, Option.isSome_iff_exists]
    simp only [entry?_eq_some_iff]
  · obtain ⟨i, hi⟩ := tells.first e.1 e.1 e.2 (hentry e he)
    obtain ⟨least, v, hv⟩ := firstWritten_writing_iff.mp hi
    exact ⟨i, v, least, hv⟩
  · obtain ⟨i, n, greatest, hv⟩ := tells.last e.1 e.1 e.2 (hentry e he)
    rw [standing_writing] at greatest
    exact ⟨i, n, greatest, getElem?_writing_iff.mp hv⟩
  · refine (List.pairwise_map.mp tells.order).imp ?_
    rintro d e ⟨i, j, hi, hj, hij⟩
    exact ⟨i, j, (firstWritten_writing_iff.mp hi).1, (firstWritten_writing_iff.mp hj).1, hij⟩

/-- The values of three spellings come to one entry. -/
example : (ofList [("Level", 1), ("mode", 2), ("LEVEL", 3), ("level", 4)] :
    Table Text.lower Nat).entries = [("Level", 4), ("mode", 2)] := by rfl

/-- Names that differ after folding differ, so that a table is a plain map as it is. -/
theorem entries_ofList_exact (t : Table fold α) :
    (ofList t.entries : ExactTable α).entries = t.entries := by
  refine entries_putAll (t := (empty : ExactTable α)) ?_
  have hfolded : (t.keys.map fold).Nodup := by
    rw [keys, List.map_map]
    exact t.distinct
  exact List.Nodup.of_map fold hfolded

end Table

/-- **Properties and plain maps.**

* Properties that are handed over as a map have the same entries there, in the same order and with
  the same spellings, and they come back as they were.
* A map that is read as properties has its keys merged that are the same but for case: one entry
  comes of them, with the place and the spelling of the first and the value of the last.  Handing
  the result over and reading it again changes nothing. -/
theorem Properties.plain_maps :
    (∀ p : Properties, p.toMap.entries = p.entries ∧ ofMap p.toMap = p) ∧
    ∀ m : ValueMap, Table.Merged Text.lower m.entries (ofMap m).entries ∧
      (ofMap m).toMap.entries = (ofMap m).entries ∧ ofMap (ofMap m).toMap = ofMap m := by
  have hback (p : Properties) : p.toMap.entries = p.entries ∧ ofMap p.toMap = p := by
    have hentries : p.toMap.entries = p.entries := Table.entries_ofList_exact p
    refine ⟨hentries, ?_⟩
    rw [ofMap, hentries, Table.ofList_entries]
  exact ⟨hback, fun m => ⟨Table.merged_ofList m.entries, hback (ofMap m)⟩⟩

end Provisioning
