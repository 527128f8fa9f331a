import Mathlib.Data.List.Nodup
import Mathlib.Data.List.Sort
import Provisioning.Session.Step

/-! # Directories over time

Whom a configuration is delivered to is asked of the directory at the time of delivery.  Two
facts about directories carry all that deliveries have to know: the targets of a configuration
are exactly the live consumers of its kind that list its identity, and a registration that is
no longer live stays so when services are registered, withdrawn and uninstalled.  The second
rests on how a directory is kept: registrations are numbered, and providers are only added.
-/
namespace Provisioning

namespace Ranked

variable {α : Type}

theorem insertBefore_eq_orderedInsert (before : α → α → Bool) (x : α) (l : List α) :
    insertBefore (fun y => !before y x) x l =
      l.orderedInsert (fun a b => before b a = false) x := by
  induction l with
  | nil => rfl
  | cons y rest ih => simp [insertBefore, ih]

/-- Sorting is insertion sort by what need not stand behind. -/
theorem sort_eq_insertionSort (before : α → α → Bool) (l : List α) :
    sort before l = l.insertionSort fun a b => before b a = false := by
  unfold sort List.insertionSort
  simp only [insertBefore_eq_orderedInsert]

theorem mem_sort {before : α → α → Bool} {l : List α} {x : α} : x ∈ sort before l ↔ x ∈ l := by
  rw [sort_eq_insertionSort, List.mem_insertionSort]

end Ranked

namespace Directory

variable {d : Directory}

theorem mem_find {identity : String} {kind : ConsumerKind} {c : Consumer} :
    c ∈ d.find identity kind ↔
      c ∈ d.consumers ∧ d.isRegistered c.service = true ∧ c.kind = kind ∧
        identity ∈ c.service.pids := by
  simp [find, List.mem_filter, and_assoc]

theorem isRegistered_of_isLive {s : Service} (h : d.isLive s = true) :
    d.isRegistered s = true := by
  unfold isLive at h
  exact (Bool.and_eq_true_iff.mp h).1

end Directory

/-- **Targets.**  A configuration is delivered to the live consumers of its kind that list its
identity, and to no others. -/
theorem Target.mem_resolve {t : Target} {d : Directory} {c : Consumer} :
    c ∈ t.resolve d ↔
      c ∈ d.consumers ∧ d.isLive c.service = true ∧ c.kind = t.kind ∧
        t.identity ∈ c.service.pids := by
  unfold resolve select
  rw [Ranked.mem_sort, List.mem_filter, Directory.mem_find, Bool.and_eq_true, beq_iff_eq]
  constructor
  · rintro ⟨⟨hc, -, -, hp⟩, hk, hl⟩
    exact ⟨hc, hl, hk, hp⟩
  · rintro ⟨hc, hl, hk, hp⟩
    exact ⟨⟨hc, Directory.isRegistered_of_isLive hl, hk, hp⟩, hk, hl⟩

namespace Directory

variable {d : Directory}

/-! ### How a directory is kept -/

/-- The numbers of all registrations. -/
def ids (d : Directory) : List Nat :=
  d.consumers.map (fun c => c.service.id) ++ d.listeners.map Service.id

/-- A directory whose registrations are numbered one by one, by providers that it knows. -/
structure WellKept (d : Directory) : Prop where
  distinct : d.ids.Nodup
  numbered : ∀ id ∈ d.ids, id ≤ d.registrations
  provided : ∀ c ∈ d.consumers, c.service.provider < d.states.length
  placed : ∀ location n, d.providers.get? location = some n → n < d.states.length

theorem wellKept_empty : WellKept {} where
  distinct := by simp [ids]
  numbered := by simp [ids]
  provided := by simp
  placed := by
    intro location n h
    exact absurd h (by simp)

/-- A consumer of a well-kept directory is known by its number. -/
theorem WellKept.eq_of_id (h : d.WellKept) {c c' : Consumer} (hc : c ∈ d.consumers)
    (hc' : c' ∈ d.consumers) (he : c.service.id = c'.service.id) : c = c' := by
  have hn : (d.consumers.map fun c => c.service.id).Nodup :=
    (List.nodup_append.mp h.distinct).1
  exact List.inj_on_of_nodup_map hn hc hc' he

theorem WellKept.id_le (h : d.WellKept) {c : Consumer} (hc : c ∈ d.consumers) :
    c.service.id ≤ d.registrations :=
  h.numbered _ (List.mem_append_left _ (List.mem_map_of_mem (f := fun c => c.service.id) hc))

/-- What a consumer is withdrawn under is its own registration. -/
theorem WellKept.service?_of_mem (h : d.WellKept) {c : Consumer} (hc : c ∈ d.consumers) :
    d.service? c.service.id = some c.service := by
  unfold service? consumer?
  cases hf : d.consumers.find? fun x => x.service.id == c.service.id with
  | none =>
    have hn := List.find?_eq_none.mp hf c hc
    exact absurd (beq_self_eq_true c.service.id) hn
  | some x =>
    have hx := List.find?_some hf
    simp only [beq_iff_eq] at hx
    rw [h.eq_of_id (List.mem_of_find?_eq_some hf) hc hx]
    rfl

/-! ### Adding a provider -/

theorem provide_rest (location : String) :
    (d.provide location).2.consumers = d.consumers ∧
      (d.provide location).2.listeners = d.listeners ∧
      (d.provide location).2.withdrawn = d.withdrawn ∧
      ∃ more, (d.provide location).2.states = d.states ++ more := by
  unfold provide
  split
  · exact ⟨rfl, rfl, rfl, [], (List.append_nil _).symm⟩
  · exact ⟨rfl, rfl, rfl, [.active], rfl⟩

theorem WellKept.provide_lt (h : d.WellKept) (location : String) :
    (d.provide location).1 < (d.provide location).2.states.length := by
  unfold provide
  split
  · next n hn => exact h.placed location n hn
  · simp

theorem WellKept.provide_placed (h : d.WellKept) (location l : String) (n : Nat)
    (hn : (d.provide location).2.providers.get? l = some n) :
    n < (d.provide location).2.states.length := by
  unfold provide at hn ⊢
  split at hn
  · exact h.placed l n hn
  · simp only [Table.get?_put] at hn
    simp only [List.length_append, List.length_singleton]
    split at hn
    · cases hn
      exact Nat.lt_succ_self _
    · exact Nat.lt_succ_of_lt (h.placed l n hn)

/-! ### Directories that only go on -/

/-- A later directory: consumers are only added, and none comes back to life. -/
structure Continues (d d' : Directory) : Prop where
  consumers : ∀ c ∈ d.consumers, c ∈ d'.consumers
  registrations : d.registrations ≤ d'.registrations
  live : ∀ c ∈ d.consumers, d'.isLive c.service = true → d.isLive c.service = true

theorem Continues.refl (d : Directory) : d.Continues d :=
  ⟨fun _ h => h, Nat.le_refl _, fun _ _ h => h⟩

/-- What a well-kept directory of the same consumers says of liveness is decided by the
withdrawn services and the states of known providers. -/
theorem isLive_append {d' : Directory} {more : List ProviderState} {s : Service}
    (hp : s.provider < d.states.length) (hw : d'.withdrawn = d.withdrawn)
    (hs : d'.states = d.states ++ more) : d'.isLive s = d.isLive s := by
  unfold isLive isRegistered stateOf
  rw [hw, hs, List.getElem?_append_left hp]

/-- The consumer that is registered next. -/
def nextConsumer (d : Directory) (kind : ConsumerKind) (location : String) (pids : List String)
    (ranking : Int) : Consumer :=
  (d.registerConsumer kind location pids ranking).1

theorem nextConsumer_id (kind : ConsumerKind) (location : String) (pids : List String)
    (ranking : Int) :
    (d.nextConsumer kind location pids ranking).service.id = d.registrations + 1 := rfl

theorem registerConsumer_snd (kind : ConsumerKind) (location : String) (pids : List String)
    (ranking : Int) :
    (d.registerConsumer kind location pids ranking).2 =
      { (d.provide location).2 with
        consumers := d.consumers ++ [d.nextConsumer kind location pids ranking] } := by
  have hc := (d.provide_rest location).1
  unfold nextConsumer registerConsumer enroll
  simp only
  rw [hc]

theorem WellKept.registerConsumer (h : d.WellKept) (kind : ConsumerKind) (location : String)
    (pids : List String) (ranking : Int) :
    (d.registerConsumer kind location pids ranking).2.WellKept := by
  obtain ⟨hc, hl, -, more, hs⟩ := d.provide_rest location
  have hfresh : d.registrations + 1 ∉ d.ids := fun hm => by
    have := h.numbered _ hm
    omega
  rw [registerConsumer_snd]
  have hids : ids { (d.provide location).2 with
      consumers := d.consumers ++ [d.nextConsumer kind location pids ranking] } =
      d.consumers.map (fun c => c.service.id) ++
        (d.registrations + 1) :: d.listeners.map Service.id := by
    simp only [ids, hl, List.map_append, List.map_cons, List.map_nil, nextConsumer_id,
      List.append_assoc, List.singleton_append]
  refine ⟨?_, ?_, ?_, h.provide_placed location⟩
  · -- the new number stands in the middle of the others
    rw [hids]
    exact List.perm_middle.nodup_iff.mpr (List.nodup_cons.mpr ⟨hfresh, h.distinct⟩)
  · rw [hids]
    intro id hm
    have hreg : registrations { (d.provide location).2 with
        consumers := d.consumers ++ [d.nextConsumer kind location pids ranking] } =
        d.registrations + 1 := by
      simp only [registrations, hl, List.length_append, List.length_singleton]
      omega
    rw [hreg]
    rcases List.mem_cons.mp (List.perm_middle.mem_iff.mp hm) with rfl | hm
    · exact Nat.le_refl _
    · exact Nat.le_succ_of_le (h.numbered id hm)
  · intro c hm
    rcases List.mem_append.mp hm with hm | hm
    · simp only [hs, List.length_append]
      exact Nat.lt_of_lt_of_le (h.provided c hm) (Nat.le_add_right _ _)
    · rw [List.mem_singleton.mp hm]
      exact h.provide_lt location

theorem WellKept.registerListener (h : d.WellKept) (location : String) :
    (d.registerListener location).2.WellKept := by
  obtain ⟨hc, hl, -, more, hs⟩ := d.provide_rest location
  have hids : (d.registerListener location).2.ids = d.ids ++ [d.registrations + 1] := by
    show (d.provide location).2.consumers.map _ ++ ((d.provide location).2.listeners ++ _).map _ = _
    rw [hc, hl, List.map_append, ← List.append_assoc]
    rfl
  have hreg : (d.registerListener location).2.registrations = d.registrations + 1 := by
    show (d.provide location).2.consumers.length +
      ((d.provide location).2.listeners ++ _).length = _
    rw [hc, hl, List.length_append]
    rfl
  refine ⟨?_, ?_, fun c hm => ?_, h.provide_placed location⟩
  · rw [hids]
    refine List.nodup_append.mpr ⟨h.distinct, List.nodup_singleton _, fun id hm id' hm' he => ?_⟩
    have hle := h.numbered id hm
    have heq := List.mem_singleton.mp hm'
    omega
  · rw [hids, hreg]
    intro id hm
    rcases List.mem_append.mp hm with hm | hm
    · exact Nat.le_succ_of_le (h.numbered id hm)
    · exact Nat.le_of_eq (List.mem_singleton.mp hm)
  · have hm' : c ∈ (d.provide location).2.consumers := hm
    rw [hc] at hm'
    show c.service.provider < (d.provide location).2.states.length
    rw [hs, List.length_append]
    exact Nat.lt_of_lt_of_le (h.provided c hm') (Nat.le_add_right _ _)

theorem WellKept.continues_registerConsumer (h : d.WellKept) (kind : ConsumerKind)
    (location : String) (pids : List String) (ranking : Int) :
    d.Continues (d.registerConsumer kind location pids ranking).2 := by
  obtain ⟨hc, hl, hw, more, hs⟩ := d.provide_rest location
  rw [registerConsumer_snd]
  refine ⟨fun c hm => List.mem_append_left _ hm, ?_, ?_⟩
  · simp only [Directory.registrations, hl, List.length_append, List.length_singleton]
    omega
  · intro c hm hlive
    exact (isLive_append (h.provided c hm) hw hs).symm.trans hlive

/-! ### Withdrawing and uninstalling -/

theorem WellKept.withdraw (h : d.WellKept) (s : Service) : (d.withdraw s).WellKept :=
  ⟨h.distinct, h.numbered, h.provided, h.placed⟩

theorem continues_withdraw (s : Service) : d.Continues (d.withdraw s) := by
  refine ⟨fun _ hm => hm, Nat.le_refl _, ?_⟩
  intro c _ hlive
  unfold isLive isRegistered withdraw at hlive
  simp only [List.contains_cons, Bool.not_or, Bool.and_eq_true] at hlive
  unfold isLive isRegistered
  exact Bool.and_eq_true_iff.mpr ⟨hlive.1.2, hlive.2⟩

theorem not_isLive_withdraw (s : Service) : (d.withdraw s).isLive s = false := by
  simp [isLive, isRegistered, withdraw]

theorem WellKept.uninstall (h : d.WellKept) (location : String) :
    (d.uninstall location).WellKept := by
  unfold Directory.uninstall
  split
  · refine ⟨h.distinct, h.numbered, ?_, ?_⟩
    · intro c hm
      simp only [List.length_set]
      exact h.provided c hm
    · intro l n hn
      simp only [List.length_set]
      rw [Table.get?_erase] at hn
      split at hn
      · cases hn
      · exact h.placed l n hn
  · exact h

theorem continues_uninstall (location : String) : d.Continues (d.uninstall location) := by
  unfold uninstall
  split
  · next n _ =>
    refine ⟨fun _ hm => hm, Nat.le_refl _, ?_⟩
    intro c _ hlive
    unfold isLive stateOf at hlive ⊢
    rw [Bool.and_eq_true] at hlive ⊢
    refine ⟨hlive.1, ?_⟩
    have hst := hlive.2
    simp only [List.getElem?_set] at hst
    by_cases hn : n = c.service.provider
    · -- the provider of the consumer is the one that was uninstalled
      rw [if_pos hn] at hst
      split at hst
      · exact absurd hst (by decide)
      · exact absurd hst (by decide)
    · rwa [if_neg hn] at hst
  · exact Continues.refl d

end Directory
end Provisioning
