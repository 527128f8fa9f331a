import Provisioning.Plugin
import Provisioning.Proofs.BindingFacts
import Provisioning.Proofs.RecordFacts

/-! # Pipelines

Which plugins a pipeline has, and what it does to properties.  Registering and unregistering in any
mixture leaves the plugins that were registered and not unregistered since, by rank, and within a
rank as they were registered: the number of a plugin is the number of registrations before it, and
it is never given again.

Properties go through those plugins whose target suits them, one after the other.  What a plugin
may do is not restricted, and how it ends is not asked.  Only the automatic pids are taken back, and
`resetEntries` says entry by entry what the properties are then.
-/
namespace Provisioning

namespace Table

variable {fold : String → String} {α : Type}

/-- A value that is written stands where the name stood, or at the end. -/
theorem assign_eq (k : String) (v : α) {l : List (String × α)}
    (hd : (l.map fun e => fold e.1).Nodup) :
    assign fold k v l = (l.map fun e => if fold e.1 = fold k then (e.1, v) else e) ++
      if fold k ∈ l.map (fun e => fold e.1) then [] else [(k, v)] := by
  induction l with
  | nil => rfl
  | cons e rest ih =>
    rw [List.map_cons, List.nodup_cons] at hd
    by_cases h : fold e.1 = fold k
    · have hrest : rest.map (fun d => if fold d.1 = fold k then (d.1, v) else d) = rest := by
        refine (List.map_congr_left fun d hd' => if_neg fun he => hd.1 ?_).trans (List.map_id _)
        exact List.mem_map.mpr ⟨d, hd', he.trans h.symm⟩
      simp [assign, h, hrest]
    · have hmem : (fold k ∈ (e :: rest).map fun e => fold e.1) ↔
          fold k ∈ rest.map fun e => fold e.1 := by
        rw [List.map_cons, List.mem_cons, or_iff_right (Ne.symm h)]
      rw [assign, if_neg h, ih hd.2, List.map_cons, if_neg h]
      simp only [hmem, List.cons_append]

end Table

/-- Whether a plugin runs before another one: by rank, and within a rank by registration. -/
def PluginEntry.Before (d e : PluginEntry) : Prop :=
  d.rank < e.rank ∨ d.rank = e.rank ∧ d.id < e.id

theorem PluginEntry.Before.trans {d e f : PluginEntry} (h : d.Before e) (h' : e.Before f) :
    d.Before f := by
  unfold Before at *
  omega

namespace Pipeline

/-! ### Registration -/

/-- A change of a pipeline. -/
inductive Command where
  | register (rank : Int) (target : Option String) (plugin : Plugin)
  | unregister (id : Nat)

/-- The pipeline after a change. -/
def perform (p : Pipeline) : Command → Pipeline
  | .register rank target plugin => (p.register rank target plugin).2
  | .unregister id => (p.unregister id).2

/-- Whether a change adds a plugin. -/
def Command.adds : Command → Bool
  | .register .. => true
  | .unregister _ => false

/-- A plugin that was registered, under the number of the registrations before, and not unregistered
since. -/
def Standing (commands : List Command) (e : PluginEntry) : Prop :=
  ∃ earlier later, commands = earlier ++ .register e.rank e.target e.plugin :: later ∧
    e.id = earlier.countP Command.adds ∧ Command.unregister e.id ∉ later

/-- What one more change does to the plugins that stand. -/
theorem standing_concat {commands : List Command} {c : Command} {e : PluginEntry} :
    Standing (commands ++ [c]) e ↔
      Standing commands e ∧ c ≠ .unregister e.id ∨
        c = .register e.rank e.target e.plugin ∧ e.id = commands.countP Command.adds := by
  constructor
  · rintro ⟨earlier, later, hsplit, hid, hlater⟩
    rcases List.eq_nil_or_concat later with rfl | ⟨later, d, rfl⟩
    · obtain ⟨rfl, hc⟩ := List.append_inj' hsplit rfl
      exact Or.inr ⟨(List.cons.inj hc).1, hid⟩
    · rw [List.concat_eq_append, ← List.cons_append, ← List.append_assoc] at hsplit
      obtain ⟨rfl, hc⟩ := List.append_inj' hsplit rfl
      obtain rfl : c = d := (List.cons.inj hc).1
      rw [List.concat_eq_append, List.mem_append, not_or, List.mem_singleton] at hlater
      exact Or.inl ⟨⟨earlier, later, rfl, hid, hlater.1⟩, Ne.symm hlater.2⟩
  · rintro (⟨⟨earlier, later, rfl, hid, hlater⟩, hc⟩ | ⟨rfl, hid⟩)
    · refine ⟨earlier, later ++ [c], by rw [List.append_assoc, List.cons_append], hid, ?_⟩
      rw [List.mem_append, List.mem_singleton]
      exact fun h => h.elim hlater (hc ∘ Eq.symm)
    · exact ⟨commands, [], rfl, hid, List.not_mem_nil⟩

/-- A pipeline has the plugins that stand after some changes, in the order in which they run. -/
structure Orderly (commands : List Command) (p : Pipeline) : Prop where
  registered : p.registered = commands.countP Command.adds
  sorted : p.entries.Pairwise PluginEntry.Before
  standing : ∀ e, e ∈ p.entries ↔ Standing commands e

namespace Orderly

variable {commands : List Command} {p : Pipeline}

theorem start : Orderly [] {} where
  registered := rfl
  sorted := .nil
  standing e := by
    refine iff_of_false List.not_mem_nil ?_
    rintro ⟨earlier, later, hsplit, -⟩
    exact List.append_ne_nil_of_right_ne_nil earlier (List.cons_ne_nil _ later) hsplit.symm

/-- The plugins that are there have smaller numbers than the next one. -/
theorem id_lt (h : Orderly commands p) {e : PluginEntry} (he : e ∈ p.entries) :
    e.id < p.registered := by
  obtain ⟨earlier, later, rfl, hid, -⟩ := (h.standing e).mp he
  rw [h.registered, hid, List.countP_append, List.countP_cons_of_pos rfl]
  omega

theorem register (h : Orderly commands p) (rank : Int) (target : Option String)
    (plugin : Plugin) :
    Orderly (commands ++ [.register rank target plugin]) (p.register rank target plugin).2 where
  registered := by
    rw [List.countP_append, ← h.registered]
    rfl
  sorted := by
    refine Ranked.pairwise_insertBefore (r := PluginEntry.Before) .trans h.sorted
      (fun e _ hlt => ?_) fun e he hle => ?_
    · exact Or.inl (of_decide_eq_true hlt)
    · have hrank : ¬rank < e.rank := of_decide_eq_false hle
      have hid := h.id_lt he
      show e.rank < rank ∨ e.rank = rank ∧ e.id < p.registered
      omega
  standing e := by
    rw [standing_concat, ← h.registered, ← h.standing]
    refine Ranked.mem_insertBefore.trans ?_
    constructor
    · rintro (rfl | he)
      · exact Or.inr ⟨rfl, rfl⟩
      · exact Or.inl ⟨he, Command.noConfusion⟩
    · rintro (⟨he, -⟩ | ⟨hc, hid⟩)
      · exact Or.inr he
      · cases hc
        exact Or.inl (by rw [← hid])

theorem unregister (h : Orderly commands p) (id : Nat) :
    Orderly (commands ++ [.unregister id]) (p.unregister id).2 where
  registered := by
    rw [List.countP_append, ← h.registered]
    rfl
  sorted := h.sorted.filter _
  standing e := by
    rw [standing_concat, ← h.standing]
    refine List.mem_filter.trans ?_
    constructor
    · rintro ⟨he, hid⟩
      refine Or.inl ⟨he, fun hc => ?_⟩
      cases hc
      simp at hid
    · rintro (⟨he, hc⟩ | ⟨hc, -⟩)
      · refine ⟨he, ?_⟩
        have hid : e.id ≠ id := fun hid => hc (congrArg Command.unregister hid.symm)
        simpa using hid
      · cases hc

theorem perform (h : Orderly commands p) (c : Command) :
    Orderly (commands ++ [c]) (p.perform c) := by
  cases c with
  | register rank target plugin => exact h.register rank target plugin
  | unregister id => exact h.unregister id

theorem foldl (h : Orderly commands p) (more : List Command) :
    Orderly (commands ++ more) (more.foldl Pipeline.perform p) := by
  induction more generalizing commands p with
  | nil => rwa [List.append_nil]
  | cons c rest ih =>
    rw [List.append_cons]
    exact ih (h.perform c)

end Orderly

/-! ### The automatic pids -/

/-- An entry, with its value replaced or taken out when it is the one of a key. -/
def reassigned (key : String) (v : Option Value) (e : String × Value) : Option (String × Value) :=
  if Text.lower e.1 = Text.lower key then v.map (Prod.mk e.1) else some e

theorem entries_assign (q : Properties) (key : String) (v : Option Value) :
    (assign q key v).entries = q.entries.filterMap (reassigned key v) ++
      if q.contains key then [] else (v.map (Prod.mk key)).toList := by
  have hmem : q.contains key = true ↔ Text.lower key ∈ q.folded := by
    rw [Table.contains_eq_isSome, Option.isSome_iff_ne_none, Ne, Table.get?_eq_none_iff,
      Decidable.not_not]
  cases v with
  | some v =>
    have hentries : (assign q key (some v)).entries = Table.assign Text.lower key v q.entries := rfl
    have hplace : reassigned key (some v) =
        some ∘ fun e => if Text.lower e.1 = Text.lower key then (e.1, v) else e := by
      funext e
      unfold reassigned
      by_cases he : Text.lower e.1 = Text.lower key <;> simp [he]
    rw [hentries, Table.assign_eq key v q.distinct, hplace, List.filterMap_eq_map]
    simp only [hmem]
    rfl
  | none =>
    have hentries : (assign q key none).entries =
        q.entries.filter fun e => !(Text.lower e.1 == Text.lower key) := rfl
    have hplace : reassigned key none =
        Option.guard fun e => !(Text.lower e.1 == Text.lower key) := by
      funext e
      unfold reassigned Option.guard
      by_cases he : Text.lower e.1 = Text.lower key <;> simp [he]
    rw [hentries, hplace, List.filterMap_eq_filter, Option.map_none, Option.toList_none, ite_self,
      List.append_nil]

/-- An assignment touches no other key. -/
theorem get?_assign_of_ne (q : Properties) {key key' : String} (v : Option Value)
    (h : Text.lower key' ≠ Text.lower key) : (assign q key v).get? key' = q.get? key' := by
  cases v with
  | some v => exact Table.get?_put_of_ne q h v
  | none => exact Table.get?_erase_of_ne q h

theorem get?_assign_self (q : Properties) (key : String) (v : Option Value) :
    (assign q key v).get? key = v := by
  cases v with
  | some v => exact Table.get?_put_self q key v
  | none => exact Table.get?_erase_self q key

/-- The entry under a key that properties lack and the given ones have. -/
def missing (given q : Properties) (key : String) : List (String × Value) :=
  if q.contains key then [] else ((given.get? key).map (Prod.mk key)).toList

/-- The properties that a plugin left, entry by entry, after the automatic pids were reset to those
of the given ones.  An entry under an automatic key keeps its place and its spelling and gets the
value of the given properties, or goes with it; what is missing of the two follows at the end. -/
def resetEntries (given q : Properties) : List (String × Value) :=
  (q.entries.filterMap fun e =>
    if Properties.isAutomaticPid e.1 then (given.get? e.1).map (Prod.mk e.1) else some e) ++
  missing given q Properties.pidKey ++ missing given q Properties.factoryPidKey

/-- The two assignments of the automatic pids do in one pass over the entries what they do in
two. -/
theorem reassigned_both (given : Properties) (e : String × Value) :
    ((reassigned Properties.pidKey (given.get? Properties.pidKey) e).bind
      (reassigned Properties.factoryPidKey (given.get? Properties.factoryPidKey))) =
    if Properties.isAutomaticPid e.1 then (given.get? e.1).map (Prod.mk e.1) else some e := by
  have hne : Text.lower Properties.pidKey ≠ Text.lower Properties.factoryPidKey :=
    Properties.lower_pidKey_ne
  have hget : ∀ key, Text.lower e.1 = Text.lower key → given.get? e.1 = given.get? key :=
    fun key he => congrArg (Option.map Prod.snd) (Table.find?_congr he given.entries)
  unfold reassigned Properties.isAutomaticPid
  by_cases hpid : Text.lower e.1 = Text.lower Properties.pidKey
  · rw [if_pos hpid, hget _ hpid]
    cases given.get? Properties.pidKey <;> simp [hpid, hne]
  · by_cases hfactory : Text.lower e.1 = Text.lower Properties.factoryPidKey
    · rw [if_neg hpid, Option.bind_some, if_pos hfactory, hget _ hfactory]
      simp [hfactory]
    · simp [hpid, hfactory]

/-- The pid, where it was missing, is not touched by the second assignment. -/
theorem reassigned_missing (given q : Properties) (v : Option Value) :
    (missing given q Properties.pidKey).filterMap (reassigned Properties.factoryPidKey v) =
      missing given q Properties.pidKey := by
  unfold missing
  split
  · rfl
  · cases given.get? Properties.pidKey with
    | none => rfl
    | some w =>
      have hkept : reassigned Properties.factoryPidKey v (Properties.pidKey, w) =
          some (Properties.pidKey, w) := if_neg Properties.lower_pidKey_ne
      rw [Option.map_some, Option.toList_some, List.filterMap_cons, hkept]
      rfl

/-- What the two assignments make of properties, entry by entry. -/
theorem entries_restoreIdentity (given q : Properties) :
    (restoreIdentity given q).entries = resetEntries given q := by
  have hcontains : (assign q Properties.pidKey (given.get? Properties.pidKey)).contains
      Properties.factoryPidKey = q.contains Properties.factoryPidKey := by
    rw [Table.contains_eq_isSome, get?_assign_of_ne q _ Properties.lower_pidKey_ne.symm,
      ← Table.contains_eq_isSome]
  have hfirst := entries_assign q Properties.pidKey (given.get? Properties.pidKey)
  have hsecond := entries_assign (assign q Properties.pidKey (given.get? Properties.pidKey))
    Properties.factoryPidKey (given.get? Properties.factoryPidKey)
  rw [hcontains, hfirst, List.filterMap_append, List.filterMap_filterMap] at hsecond
  refine hsecond.trans ?_
  simp only [reassigned_both]
  exact congrArg (_ ++ · ++ _) (reassigned_missing given q _)

theorem get?_restoreIdentity (given q : Properties) :
    (restoreIdentity given q).get? Properties.pidKey = given.get? Properties.pidKey ∧
      (restoreIdentity given q).get? Properties.factoryPidKey =
        given.get? Properties.factoryPidKey := by
  refine ⟨?_, get?_assign_self _ _ _⟩
  exact (get?_assign_of_ne _ _ Properties.lower_pidKey_ne).trans (get?_assign_self _ _ _)

/-! ### Runs -/

/-- Plugins run one after the other, each on what the properties are then.  Whatever a plugin
changed stays, however it ended, except that the automatic pids are reset. -/
inductive Course (s : Service) (given : Properties) :
    List PluginEntry → Properties → Properties → Prop where
  | done (q : Properties) : Course s given [] q q
  | step {e : PluginEntry} {later : List PluginEntry} {q changed next result : Properties}
      {reply : Reply} (run : e.plugin s q = (changed, reply))
      (reset : next.entries = resetEntries given changed)
      (rest : Course s given later next result) : Course s given (e :: later) q result

section Courses

variable {s : Service} {given : Properties} {entries : List PluginEntry} {q result : Properties}

theorem eq_restoreIdentity (h : result.entries = resetEntries given q) :
    result = restoreIdentity given q :=
  Table.ext_entries (h.trans (entries_restoreIdentity given q).symm)

/-- There is exactly one course. -/
theorem course_iff :
    Course s given entries q result ↔
      result = entries.foldl (fun q e => restoreIdentity given (e.plugin s q).1) q := by
  constructor
  · intro h
    induction h with
    | done q => rfl
    | step run reset _ ih => rw [ih, List.foldl_cons, run, eq_restoreIdentity reset]
  · rintro rfl
    induction entries generalizing q with
    | nil => exact .done q
    | cons e rest ih => exact .step rfl (entries_restoreIdentity _ _) ih

/-- Properties that start with the given automatic pids end with them. -/
theorem Course.automatic (h : Course s given entries q result)
    (hpid : q.get? Properties.pidKey = given.get? Properties.pidKey)
    (hfactory : q.get? Properties.factoryPidKey = given.get? Properties.factoryPidKey) :
    result.get? Properties.pidKey = given.get? Properties.pidKey ∧
      result.get? Properties.factoryPidKey = given.get? Properties.factoryPidKey := by
  induction h with
  | done q => exact ⟨hpid, hfactory⟩
  | step _ reset _ ih =>
    obtain rfl := eq_restoreIdentity reset
    obtain ⟨hpid, hfactory⟩ := get?_restoreIdentity given _
    exact ih hpid hfactory

end Courses

/-- After any changes, a pipeline has the plugins that were registered and not unregistered since,
by rank and registration.  Absent properties pass through.  Given ones go through exactly the
plugins that have no target or the right one, in that order, and come out with their automatic
pids. -/
theorem plugins_run_in_order (commands : List Command) :
    let p := commands.foldl perform {}
    p.entries.Pairwise PluginEntry.Before ∧ (∀ e, e ∈ p.entries ↔ Standing commands e) ∧
      (∀ rank target plugin,
        (p.register rank target plugin).1 = commands.countP Command.adds) ∧
      ∀ identity s, p.apply identity s none = none ∧
        ∀ given, ∃ result, p.apply identity s (some given) = some result ∧
          (∀ r, r = result ↔ Course s given
            (p.entries.filter fun e => e.target = none ∨ e.target = some identity) given r) ∧
          result.get? Properties.pidKey = given.get? Properties.pidKey ∧
          result.get? Properties.factoryPidKey = given.get? Properties.factoryPidKey := by
  intro p
  have horderly : Orderly commands p := Orderly.start.foldl commands
  have hmatching : ∀ identity, p.matching identity =
      p.entries.filter fun e => e.target = none ∨ e.target = some identity := by
    intro identity
    refine List.filter_congr fun e _ => Bool.eq_iff_iff.mpr ?_
    unfold PluginEntry.matchesIdentity
    cases e.target <;> simp
  refine ⟨horderly.sorted, horderly.standing, fun _ _ _ => horderly.registered,
    fun identity s => ⟨rfl, fun given => ⟨p.run identity s given, rfl, fun r => ?_, ?_⟩⟩⟩
  · rw [← hmatching]
    exact course_iff.symm
  · have hcourse : Course s given (p.matching identity) given (p.run identity s given) :=
      course_iff.mpr rfl
    exact hcourse.automatic rfl rfl

/-- A plugin of lower rank forges the pid and breaks down; one for another pid does not run. -/
example :
    let late := Edit.script [.append "trail" "late"]
    let forger := Edit.script
      [.set "SERVICE.PID" (.text "forged"), .append "trail" "forger, ", .finish (.crash "forged")]
    let p := [.register 10 none late, .register 0 none forger,
      .register 5 (some "svc.B") forger].foldl perform {}
    let given := Table.empty.put Properties.pidKey (.text "svc.A")
    (p.apply "svc.A" { id := 1, location := "here", provider := 1 } (some given)).map
        (fun q => (Properties.text? q Properties.pidKey, Properties.text? q "trail")) =
      some (some "svc.A", some "forger, late") := by decide

end Pipeline
end Provisioning
