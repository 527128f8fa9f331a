/-! # Lists in rank order

Insertion in front of the first item that has to come later, which keeps a list sorted and
leaves items of equal rank in the order in which they came.
-/
namespace Provisioning
namespace Ranked

variable {α : Type}

/-- Inserts an item in front of the first one that must stand behind it. -/
def insertBefore (behind : α → Bool) (x : α) : List α → List α
  | [] => [x]
  | y :: rest => if behind y then x :: y :: rest else y :: insertBefore behind x rest

/-- Sorts by a strict order; items that the order does not separate keep their places. -/
def sort (before : α → α → Bool) (l : List α) : List α :=
  l.foldr (fun x sorted => insertBefore (fun y => !before y x) x sorted) []

theorem insertBefore_perm (behind : α → Bool) (x : α) (l : List α) :
    (insertBefore behind x l).Perm (x :: l) := by
  induction l with
  | nil => exact List.Perm.refl _
  | cons y rest ih =>
    unfold insertBefore
    split
    · exact List.Perm.refl _
    · exact (ih.cons y).trans (List.Perm.swap x y rest)

theorem mem_insertBefore {behind : α → Bool} {x y : α} {l : List α} :
    y ∈ insertBefore behind x l ↔ y = x ∨ y ∈ l := by
  rw [(insertBefore_perm behind x l).mem_iff, List.mem_cons]

/-- A sorted list stays sorted, when the item belongs in front of the first one that has to stand
behind it, and behind those that need not. -/
theorem pairwise_insertBefore {r : α → α → Prop} (htrans : ∀ {x y z}, r x y → r y z → r x z)
    {behind : α → Bool} {x : α} {l : List α} (hl : l.Pairwise r)
    (hbehind : ∀ y ∈ l, behind y = true → r x y) (hfront : ∀ y ∈ l, behind y = false → r y x) :
    (insertBefore behind x l).Pairwise r := by
  induction l with
  | nil => exact List.pairwise_singleton r x
  | cons y rest ih =>
    obtain ⟨hy, hrest⟩ := List.pairwise_cons.mp hl
    unfold insertBefore
    split
    · next hb =>
      have hxy : r x y := hbehind y List.mem_cons_self hb
      refine List.pairwise_cons.mpr ⟨fun z hz => ?_, hl⟩
      rcases List.mem_cons.mp hz with rfl | hz
      · exact hxy
      · exact htrans hxy (hy z hz)
    · next hb =>
      refine List.pairwise_cons.mpr ⟨fun z hz => ?_,
        ih hrest (fun z hz => hbehind z (List.mem_cons_of_mem y hz))
          fun z hz => hfront z (List.mem_cons_of_mem y hz)⟩
      rcases mem_insertBefore.mp hz with rfl | hz
      · exact hfront y List.mem_cons_self (Bool.eq_false_iff.mpr hb)
      · exact hy z hz

end Ranked
end Provisioning
