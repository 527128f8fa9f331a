import Provisioning.Storage

/-! # How a chain ranks its backends

A chain only says in front of whom a backend is put.  What follows for the whole chain is kept by
every addition (`Chain.Ranks.add`): ranks descend along it, and backends of one rank stand in the
order in which they were added, however the additions of several ranks alternate.

On that rests what a lookup finds.  Of the backends that it may find, it is the one of highest rank
that was added first (`Foremost`), and this speaks of the additions alone.
-/
namespace Provisioning

namespace Ranked

variable {α : Type} {behind keep : α → Bool} {x : α} {l : List α}

/-- Items that the new one is not among keep their order. -/
theorem filter_insertBefore_of_neg (hx : keep x = false) :
    (insertBefore behind x l).filter keep = l.filter keep := by
  induction l with
  | nil => simp [insertBefore, hx]
  | cons y rest ih =>
    unfold insertBefore
    split
    · rw [List.filter_cons_of_neg (by simp [hx])]
    · rw [List.filter_cons, List.filter_cons, ih]

/-- Among items none of which has to stand behind it, the new one comes last. -/
theorem filter_insertBefore_of_pos (hx : keep x = true)
    (hl : l.Pairwise fun y z => behind y = true → behind z = true)
    (hkeep : ∀ y ∈ l, keep y = true → behind y = false) :
    (insertBefore behind x l).filter keep = l.filter keep ++ [x] := by
  induction l with
  | nil => simp [insertBefore, hx]
  | cons y rest ih =>
    obtain ⟨hy, hrest⟩ := List.pairwise_cons.mp hl
    unfold insertBefore
    split
    · next hb =>
      -- From here on everything has to stand behind the new item, and so nothing is kept.
      have hnone : (y :: rest).filter keep = [] := by
        refine List.filter_eq_nil_iff.mpr fun z hz hk => ?_
        have hbz : behind z = true := by
          rcases List.mem_cons.mp hz with rfl | hz'
          · exact hb
          · exact hy z hz' hb
        rw [hkeep z hz hk] at hbz
        exact Bool.false_ne_true hbz
      rw [List.filter_cons_of_pos hx, hnone, List.nil_append]
    · rw [List.filter_cons, List.filter_cons,
        ih hrest fun z hz => hkeep z (List.mem_cons_of_mem y hz)]
      split <;> simp

end Ranked

/-- A chain ranks links that were added one after the other. -/
structure Chain.Ranks (c : Chain) (added : List Link) : Prop where
  perm : c.Perm added
  descending : c.Pairwise fun l k => k.rank ≤ l.rank
  /-- Links of one rank stand in the order in which they were added. -/
  steady : ∀ r, c.filter (fun l => l.rank = r) = added.filter fun l => l.rank = r

/-- The link that was added first among the fit ones of highest rank. -/
def Foremost (fit : Link → Bool) (added : List Link) (l : Link) : Prop :=
  ∃ earlier later, added = earlier ++ l :: later ∧ fit l = true ∧
    (∀ k ∈ earlier, fit k = true → k.rank < l.rank) ∧
    ∀ k ∈ later, fit k = true → k.rank ≤ l.rank

namespace Chain

variable {c : Chain} {added : List Link} {fit : Link → Bool} {l : Link}

/-- Each addition keeps the order of what was added before. -/
theorem Ranks.add (h : c.Ranks added) (l : Link) :
    (c.add l.rank l.backend).Ranks (added ++ [l]) where
  perm := (Ranked.insertBefore_perm _ l c).trans
    ((h.perm.cons l).trans (List.perm_append_singleton l added).symm)
  descending := by
    refine Ranked.pairwise_insertBefore (r := fun l k : Link => k.rank ≤ l.rank)
      (fun hxy hyz => Int.le_trans hyz hxy) h.descending (fun k _ hk => ?_) fun k _ hk => ?_
    · exact Int.le_of_lt (of_decide_eq_true hk)
    · exact Int.not_lt.mp (of_decide_eq_false hk)
  steady := by
    intro r
    rw [List.filter_append, ← h.steady r]
    by_cases hr : l.rank = r
    · have hlower : c.Pairwise fun k k' => decide (k.rank < l.rank) = true →
          decide (k'.rank < l.rank) = true := by
        refine h.descending.imp fun {k k'} hle hlt => ?_
        exact decide_eq_true (Int.lt_of_le_of_lt hle (of_decide_eq_true hlt))
      rw [Chain.add, Ranked.filter_insertBefore_of_pos (by simpa using hr) hlower]
      · have hone : [l].filter (fun k => k.rank = r) = [l] :=
          List.filter_cons_of_pos (decide_eq_true hr)
        rw [hone]
      · intro k _ hk
        rw [decide_eq_true_eq] at hk
        exact decide_eq_false (by omega)
    · rw [Chain.add, Ranked.filter_insertBefore_of_neg (by simpa using hr)]
      simp [hr]

/-! ### What is found along a chain -/

/-- Highest among the fit links, and first among the fit links of its rank. -/
theorem foremost_iff : Foremost fit added l ↔
    (∀ k ∈ added, fit k = true → k.rank ≤ l.rank) ∧
      (added.filter fun k => k.rank = l.rank).find? fit = some l := by
  rw [List.find?_filter, List.find?_eq_some_iff_append]
  constructor
  · rintro ⟨earlier, later, rfl, hl, hearlier, hlater⟩
    refine ⟨fun k hk hfit => ?_, by simp [hl], earlier, later, rfl, fun k hk => ?_⟩
    · obtain hk | rfl | hk : k ∈ earlier ∨ k = l ∨ k ∈ later := by simpa using hk
      · exact Int.le_of_lt (hearlier k hk hfit)
      · exact Int.le_refl _
      · exact hlater k hk hfit
    · cases hfit : fit k with
      | false => simp
      | true => simp [Int.ne_of_lt (hearlier k hk hfit)]
  · rintro ⟨hle, hl, earlier, later, rfl, hearlier⟩
    refine ⟨earlier, later, rfl, by simpa using hl, fun k hk hfit => ?_, fun k hk => ?_⟩
    · have hne : k.rank ≠ l.rank := by simpa [hfit] using hearlier k hk
      exact Int.lt_iff_le_and_ne.mpr ⟨hle k (List.mem_append_left _ hk) hfit, hne⟩
    · exact hle k (List.mem_append_right _ (List.mem_cons_of_mem l hk))

/-- Where ranks descend, the first fit link is the foremost one. -/
theorem find?_eq_some_iff_foremost (h : c.Pairwise fun l k => k.rank ≤ l.rank) :
    c.find? fit = some l ↔ Foremost fit c l := by
  rw [List.find?_eq_some_iff_append]
  constructor
  · rintro ⟨hl, earlier, later, rfl, hearlier⟩
    obtain ⟨-, hlater, -⟩ := List.pairwise_append.mp h
    refine ⟨earlier, later, rfl, hl, fun k hk hfit => ?_, fun k hk _ => ?_⟩
    · have hunfit : fit k = false := by simpa using hearlier k hk
      rw [hunfit] at hfit
      exact absurd hfit Bool.false_ne_true
    · exact (List.pairwise_cons.mp hlater).1 k hk
  · rintro ⟨earlier, later, rfl, hl, hearlier, -⟩
    obtain ⟨-, -, habove⟩ := List.pairwise_append.mp h
    refine ⟨hl, earlier, later, rfl, fun k hk => ?_⟩
    cases hfit : fit k with
    | false => rfl
    | true =>
      exact absurd (hearlier k hk hfit) (Int.not_lt.mpr (habove k hk l List.mem_cons_self))

/-- What is found along a chain is told by the additions. -/
theorem Ranks.find?_eq_some_iff (h : c.Ranks added) :
    c.find? fit = some l ↔ Foremost fit added l := by
  rw [find?_eq_some_iff_foremost h.descending, foremost_iff, foremost_iff, h.steady]
  simp only [h.perm.mem_iff]

theorem ranks_nil : Ranks [] [] := ⟨.refl _, .nil, fun _ => rfl⟩

end Chain

namespace Storage

variable {s : Storage} {added : List Link} {id name : String}

theorem primary_eq_ok_iff :
    s.primary = .ok name ↔ s.chain.head?.map Link.backend = some name := by
  unfold primary
  cases s.chain <;> simp

theorem primary_eq_error_iff : s.primary = .error .noBackend ↔ s.chain = [] := by
  unfold primary
  cases s.chain <;> simp

theorem firstHaving_eq_some_iff (h : s.chain.Ranks added) : s.firstHaving id = some name ↔
    ∃ l, l.backend = name ∧ Foremost (fun l => (s.backend l.backend).holds id) added l := by
  simp only [firstHaving, Option.map_eq_some_iff, h.find?_eq_some_iff, and_comm]

theorem firstHaving_eq_none_iff (h : s.chain.Ranks added) :
    s.firstHaving id = none ↔ ∀ l ∈ added, (s.backend l.backend).holds id = false := by
  simp only [firstHaving, Option.map_eq_none_iff, List.find?_eq_none, h.perm.mem_iff,
    Bool.not_eq_true]

theorem primary_eq_ok_iff_foremost (h : s.chain.Ranks added) :
    s.primary = .ok name ↔ ∃ l, l.backend = name ∧ Foremost (fun _ => true) added l := by
  have hhead : s.chain.head? = s.chain.find? fun _ => true := by cases s.chain <;> rfl
  simp only [primary_eq_ok_iff, hhead, Option.map_eq_some_iff, h.find?_eq_some_iff, and_comm]

/-- Adds backends to the chain one after the other. -/
def addAll (s : Storage) (added : List Link) : Storage :=
  added.foldl (fun s l => s.add l.rank l.backend) s

/-- Additions change the chain only, and it ranks all of them. -/
theorem addAll_ranks (h : s.chain.Ranks added) (more : List Link) :
    (s.addAll more).backends = s.backends ∧ (s.addAll more).chain.Ranks (added ++ more) := by
  induction more generalizing s added with
  | nil => exact ⟨rfl, by rwa [List.append_nil]⟩
  | cons l more ih =>
    have hmore := ih (s := s.add l.rank l.backend) (h.add l)
    rwa [List.append_assoc, List.singleton_append] at hmore

/-- Backends of three ranks that are added in no order. -/
example : (addAll {} [⟨0, "a"⟩, ⟨5, "b"⟩, ⟨0, "c"⟩, ⟨-1, "d"⟩, ⟨5, "e"⟩]).chain.map Link.backend =
    ["b", "e", "a", "c", "d"] := by decide

/-- **Ranked backends.**  Let backends be added to an empty chain, with any ranks, and let them hold
whatever they do.

* The chain lists what was added by descending rank, equal ranks in the order of addition.
* The backend that is found for an id is, among those that hold the id, the one of highest rank that
  was added first; none is found just if none of them holds the id.
* The primary is, among all of them, the one of highest rank that was added first; there is none
  just if nothing was added. -/
theorem addAll_ranked (backends : ExactTable Backend) (added : List Link) :
    let s := addAll { backends, chain := [] } added
    s.backends = backends ∧ s.chain.Ranks added ∧
      (∀ id, (∀ name, s.firstHaving id = some name ↔ ∃ l, l.backend = name ∧
          Foremost (fun l => (s.backend l.backend).holds id) added l) ∧
        (s.firstHaving id = none ↔ ∀ l ∈ added, (s.backend l.backend).holds id = false)) ∧
      (∀ name, s.primary = .ok name ↔ ∃ l, l.backend = name ∧ Foremost (fun _ => true) added l) ∧
      (s.primary = .error .noBackend ↔ added = []) := by
  intro s
  obtain ⟨hbackends, hranks⟩ : s.backends = backends ∧ s.chain.Ranks added :=
    addAll_ranks (s := { backends, chain := [] }) Chain.ranks_nil added
  refine ⟨hbackends, hranks, fun id => ⟨fun name => ?_, ?_⟩, fun name => ?_, ?_⟩
  · exact firstHaving_eq_some_iff hranks
  · exact firstHaving_eq_none_iff hranks
  · exact primary_eq_ok_iff_foremost hranks
  · rw [primary_eq_error_iff, ← List.perm_nil, hranks.perm.congr_left, List.perm_nil]

end Storage
end Provisioning
