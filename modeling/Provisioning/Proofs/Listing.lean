import Provisioning.Proofs.Labels
import Provisioning.Proofs.Restart

/-! # What is listed

A pid may be stored in several backends, with different contents; a look-up goes to the backend of
highest rank that has it.  A listing goes through all of them and remembers which pids it is done
with.  It remembers only those whose dictionaries passed the filter, so that what it shows for a pid
is decided by the first of its dictionaries that passes, and not by the first there is.  The two are
the same, and the answer is what it should be, exactly as long as no dictionary that passes stands
behind one of its pid that does not.
-/
namespace Provisioning

/-! ### Sorting -/

namespace Ranked

variable {α : Type} {key : α → String}

/-- Items with keys of their own are sorted by their keys. -/
theorem sort_pairwise {l : List α} (hl : (l.map key).Nodup) :
    (sort (fun a b => decide (key a < key b)) l).Pairwise (fun a b => key a < key b) := by
  let r : α → α → Prop := fun a b => decide (key b < key a) = false
  have hr : ∀ {a b}, r a b ↔ key a ≤ key b := decide_eq_false_iff_not.trans String.not_lt
  have : Std.Total r := ⟨fun a b => by simpa only [hr] using Std.le_total (a := key a) (b := key b)⟩
  have : IsTrans α r := ⟨fun a b c => by simpa only [hr] using String.le_trans⟩
  have hkeys : (l.insertionSort r).Pairwise fun a b => key a ≠ key b :=
    List.pairwise_map.mp (((List.perm_insertionSort r l).map key).nodup_iff.mpr hl)
  rw [sort_eq_insertionSort]
  exact ((List.pairwise_insertionSort r l).and hkeys).imp fun h =>
    Std.lt_of_le_of_ne (hr.mp h.1) h.2

end Ranked

/-! ### Dictionaries of configurations -/

namespace Storage

variable (st : Storage)

/-- The dictionary of a configuration in a backend: it is stored under the pid that it carries. -/
def described? (name pid : String) : Option Properties :=
  (st.held name pid).filter fun d => Properties.text? d Properties.pidKey == some pid

/-- The dictionary of a configuration in the first backend along the chain that has one which
passes, with the name of that backend. -/
def foremost? (passes : Properties → Bool) (pid : String) : Option (String × Properties) :=
  st.chain.findSome? fun l => ((st.described? l.backend pid).filter passes).map (l.backend, ·)

/-- The dictionary of a configuration in the first backend along the chain that has one. -/
def authority? (pid : String) : Option (String × Properties) := st.foremost? (fun _ => true) pid

/-- The dictionary of a configuration in the backend of highest rank that has one, if it passes. -/
def authoritative? (passes : Properties → Bool) (pid : String) : Option (String × Properties) :=
  (st.authority? pid).filter fun x => passes x.2

/-- All dictionaries along the chain, with the names of their backends. -/
def inventory : List (String × Properties) :=
  st.chain.flatMap fun l => (st.backend l.backend).listing.map fun e => (l.backend, e.2)

variable {st}

theorem described?_eq_some {name pid : String} {d : Properties} :
    st.described? name pid = some d ↔
      st.held name pid = some d ∧ Properties.text? d Properties.pidKey = some pid := by
  rw [described?, Option.filter_eq_some_iff, beq_iff_eq]

/-- Among the dictionaries of a backend there is one of a configuration at most. -/
theorem find?_listing (hst : st.Labelled) (passes : Properties → Bool) (name pid : String) :
    ((st.backend name).listing.map fun e => (name, e.2)).find? (fun x =>
        Properties.text? x.2 Properties.pidKey == some pid && passes x.2) =
      ((st.described? name pid).filter passes).map (name, ·) := by
  have hmem : ∀ id d, (id, d) ∈ (st.backend name).listing ↔ st.held name id = some d := by
    intro id d
    rw [Backend.listing, Ranked.mem_sort, held, Table.get?_eq_some_iff]
  cases hd : (st.described? name pid).filter passes with
  | none =>
    rw [Option.map_none, List.find?_eq_none]
    rintro x hx hp
    obtain ⟨⟨id, d⟩, he, rfl⟩ := List.mem_map.mp hx
    rw [Bool.and_eq_true, beq_iff_eq] at hp
    have hheld := (hmem id d).mp he
    obtain rfl := hst name id d pid hheld hp.1
    have hdesc := described?_eq_some.mpr ⟨hheld, hp.1⟩
    rw [hdesc, Option.filter_some, if_pos hp.2] at hd
    cases hd
  | some d =>
    obtain ⟨hdesc, hpass⟩ := Option.filter_eq_some_iff.mp hd
    obtain ⟨hheld, htext⟩ := described?_eq_some.mp hdesc
    have hfound : (((st.backend name).listing.map fun e => (name, e.2)).find? fun x =>
        Properties.text? x.2 Properties.pidKey == some pid && passes x.2).isSome := by
      rw [List.find?_isSome]
      refine ⟨(name, d), List.mem_map_of_mem ((hmem pid d).mpr hheld), ?_⟩
      rw [Bool.and_eq_true, beq_iff_eq]
      exact ⟨htext, hpass⟩
    obtain ⟨x, hx⟩ := Option.isSome_iff_exists.mp hfound
    rw [hx, Option.map_some, Option.some_inj]
    obtain ⟨⟨id, d'⟩, he, rfl⟩ := List.mem_map.mp (List.mem_of_find?_eq_some hx)
    have hp := List.find?_some hx
    rw [Bool.and_eq_true, beq_iff_eq] at hp
    have hheld' := (hmem id d').mp he
    obtain rfl := hst name id d' pid hheld' hp.1
    rw [hheld] at hheld'
    rw [Option.some_inj.mp hheld']

/-- The first dictionary of a configuration that passes, among all. -/
theorem find?_inventory (hst : st.Labelled) (passes : Properties → Bool) (pid : String) :
    st.inventory.find? (fun x =>
        Properties.text? x.2 Properties.pidKey == some pid && passes x.2) =
      st.foremost? passes pid := by
  rw [inventory, List.find?_flatMap, foremost?]
  exact congrArg (fun f => st.chain.findSome? f)
    (funext fun l => find?_listing hst passes l.backend pid)

/-- A dictionary that passes is the foremost one among those that do. -/
theorem foremost?_of_authority {passes : Properties → Bool} {pid : String}
    {x : String × Properties} (h : st.authority? pid = some x) (hp : passes x.2 = true) :
    st.foremost? passes pid = some x := by
  unfold authority? foremost? at h
  unfold foremost?
  generalize st.chain = chain at h ⊢
  induction chain with
  | nil => cases h
  | cons l rest ih =>
    rw [List.findSome?_cons] at h ⊢
    cases hd : st.described? l.backend pid with
    | none =>
      rw [hd] at h
      exact ih h
    | some d =>
      rw [hd] at h
      obtain rfl : (l.backend, d) = x := Option.some_inj.mp h
      rw [Option.filter_some, if_pos hp]
      rfl

theorem foremost?_of_no_authority {passes : Properties → Bool} {pid : String}
    (h : st.authority? pid = none) : st.foremost? passes pid = none := by
  unfold authority? foremost? at h
  rw [List.findSome?_eq_none_iff] at h
  unfold foremost?
  rw [List.findSome?_eq_none_iff]
  intro l hl
  have hnone := h l hl
  cases hd : st.described? l.backend pid with
  | none => rfl
  | some d =>
    rw [hd] at hnone
    cases hnone

end Storage

/-! ### What a listing shows -/

/-- Whether a dictionary passes a filter, if there is one. -/
def Filter.passes (g : Option Filter) (d : Properties) : Bool :=
  (g.map fun g => g.acceptsProperties d).getD true

/-- Whether a record is listed at all. -/
def Record.isListed (r : Record) : Bool := !(r.isNew || r.deleted)

namespace Session

variable (s : Session)

/-- The record that is shown for a dictionary of a configuration, unless that record was never
updated or is deleted. -/
def shown? (pid : String) (x : Option (String × Properties)) : Option Record :=
  x.bind fun x => (s.listedRecord pid x.1 x.2).toOption.filter Record.isListed

/-- A list of records in the order of their pids, which shows each configuration by the given one of
its dictionaries, once, and nothing else. -/
structure Lists (dictionary? : String → Option (String × Properties)) (rs : List Record) :
    Prop where
  sorted : rs.Pairwise fun a b => a.pid < b.pid
  shown : ∀ pid, rs.filter (fun r => r.pid == pid) = (s.shown? pid (dictionary? pid)).toList

variable {s}

/-- A dictionary stands for a record of the pid that it carries. -/
theorem exists_listedRecord (hv : s.view.Filed) {pid : String} {d : Properties}
    (hd : Properties.text? d Properties.pidKey = some pid) (home : String) :
    ∃ r, s.listedRecord pid home d = .ok r ∧ r.pid = pid := by
  unfold listedRecord
  split
  · next h hc => exact ⟨_, rfl, (hv.held pid h hc).2.1⟩
  · obtain ⟨r, hr⟩ : ∃ r, Record.ofDictionary pid home d = .ok r := by
      have hown : (some pid).filter (· != pid) = none := by simp
      unfold Record.ofDictionary
      rw [hd, hown]
      dsimp only
      split <;> exact ⟨_, rfl⟩
    have hrevive : s.revive pid home d = .ok (r.restore (s.bindings.get? pid)) := by
      rw [revive, hr]
      rfl
    exact ⟨_, by rw [hrevive]; rfl, (revive_spec hrevive).1⟩

/-- What one dictionary adds to a listing. -/
theorem survey_cases (hv : s.view.Filed) (g : Option Filter) (home : String) (f : Findings)
    (d : Properties) :
    (s.survey g home f d = .ok f ∧ ∀ pid, pid ∉ f.seen →
      (Properties.text? d Properties.pidKey == some pid && Filter.passes g d) = false) ∨
    ∃ pid r, s.survey g home f d = .ok
        { seen := pid :: f.seen, found := if r.isListed then f.found ++ [r] else f.found } ∧
      pid ∉ f.seen ∧ Properties.text? d Properties.pidKey = some pid ∧
      Filter.passes g d = true ∧ s.listedRecord pid home d = .ok r ∧ r.pid = pid := by
  unfold survey
  cases hd : Properties.text? d Properties.pidKey with
  | none => exact Or.inl ⟨rfl, fun _ _ => rfl⟩
  | some p =>
    dsimp only
    split
    · next hskip =>
      refine Or.inl ⟨rfl, fun pid hpid => ?_⟩
      rw [Bool.or_eq_true, List.contains_iff_mem, Bool.not_eq_true'] at hskip
      rcases hskip with hseen | hfail
      · have hne : p ≠ pid := fun he => hpid (he ▸ hseen)
        simp [hne]
      · rw [Filter.passes, hfail, Bool.and_false]
    · next htake =>
      rw [Bool.not_eq_true, Bool.or_eq_false_iff, Bool.not_eq_false'] at htake
      obtain ⟨r, hr, hpid⟩ := exists_listedRecord hv hd home
      refine Or.inr ⟨p, r, ?_, by simpa using htake.1, rfl, htake.2, hr, hpid⟩
      rw [hr, Record.isListed]
      cases hlisted : r.isNew || r.deleted <;> simp [Except.map, hlisted]

/-- **A listing** shows each configuration that it was not done with by the first of its
dictionaries that passes. -/
theorem foldlM_survey (hv : s.view.Filed) (g : Option Filter) (l : List (String × Properties))
    (f : Findings) :
    ∃ f', l.foldlM (fun f x => s.survey g x.1 f x.2) f = .ok f' ∧
      ∀ pid, f'.found.filter (fun r => r.pid == pid) =
        f.found.filter (fun r => r.pid == pid) ++
          if pid ∈ f.seen then []
          else (s.shown? pid (l.find? fun x =>
            Properties.text? x.2 Properties.pidKey == some pid && Filter.passes g x.2)).toList := by
  induction l generalizing f with
  | nil => exact ⟨f, rfl, fun pid => by simp [shown?]⟩
  | cons x rest ih =>
    rcases survey_cases hv g x.1 f x.2 with ⟨hsame, hskip⟩ | ⟨p, r, hsurvey, hp, hx⟩
    · obtain ⟨f', hf', hfound⟩ := ih f
      refine ⟨f', by rw [List.foldlM_cons, hsame]; exact hf', fun pid => ?_⟩
      rw [hfound pid]
      split
      · rfl
      · next hpid => rw [List.find?_cons, hskip pid hpid]
    · obtain ⟨hd, hpass, hr, hrpid⟩ := hx
      obtain ⟨f', hf', hfound⟩ := ih
        { seen := p :: f.seen, found := if r.isListed then f.found ++ [r] else f.found }
      refine ⟨f', by rw [List.foldlM_cons, hsurvey]; exact hf', fun pid => ?_⟩
      rw [hfound pid, List.find?_cons, hd, hpass, Bool.and_true]
      by_cases he : pid = p
      · -- from here on the listing is done with this pid
        subst he
        rw [if_pos List.mem_cons_self, if_neg hp, List.append_nil, beq_self_eq_true]
        dsimp only
        rw [shown?, Option.bind_some, hr]
        dsimp only [Except.toOption]
        by_cases hlisted : r.isListed = true
        · rw [if_pos hlisted, List.filter_append, Option.filter_some, if_pos hlisted]
          simp [hrpid]
        · rw [if_neg hlisted, Option.filter_some, if_neg hlisted]
          simp
      · have hother : (some p == some pid) = false := by simpa using Ne.symm he
        rw [hother]
        dsimp only
        have hfilter : (if r.isListed then f.found ++ [r] else f.found).filter
            (fun r => r.pid == pid) = f.found.filter (fun r => r.pid == pid) := by
          split
          · rw [List.filter_append]
            simp [hrpid, Ne.symm he]
          · rfl
        rw [hfilter]
        simp only [List.mem_cons, he, false_or]

/-- The backends are gone through one dictionary after the other. -/
theorem foldlM_surveyBackend (g : Option Filter) (chain : Chain)
    (hlist : ∀ l ∈ chain, (s.storage.backend l.backend).unlistable = false) (f : Findings) :
    chain.foldlM (s.surveyBackend g) f =
      (chain.flatMap fun l => (s.storage.backend l.backend).listing.map fun e =>
        (l.backend, e.2)).foldlM (fun f x => s.survey g x.1 f x.2) f := by
  induction chain generalizing f with
  | nil => rfl
  | cons l rest ih =>
    have hone : s.surveyBackend g f l = ((s.storage.backend l.backend).listing.map fun e =>
        (l.backend, e.2)).foldlM (fun f x => s.survey g x.1 f x.2) f := by
      rw [surveyBackend, Backend.listAll, hlist l List.mem_cons_self]
      simp only [Bool.false_eq_true, if_false, List.foldlM_map]
    rw [List.foldlM_cons, List.flatMap_cons, List.foldlM_append, hone]
    exact congrArg _ (funext fun f' => ih (fun l' hl => hlist l' (List.mem_cons_of_mem l hl)) f')

/-- Records of which there is one of each pid at most stay so when they are sorted. -/
theorem lists_sort {dictionary? : String → Option (String × Properties)} {found : List Record}
    (h : ∀ pid, found.filter (fun r => r.pid == pid) = (s.shown? pid (dictionary? pid)).toList) :
    s.Lists dictionary? (Ranked.sort (fun a b => decide (a.pid < b.pid)) found) where
  sorted := by
    refine Ranked.sort_pairwise (List.nodup_iff_count_le_one.mpr fun pid => ?_)
    have hcount : (found.map Record.pid).count pid =
        (found.filter fun r => r.pid == pid).length := by
      rw [List.count, List.countP_map, List.countP_eq_length_filter]
      rfl
    rw [hcount, h pid]
    cases s.shown? pid (dictionary? pid) <;> simp
  shown := by
    intro pid
    rw [Ranked.sort_eq_insertionSort]
    have hperm := (List.perm_insertionSort (fun a b => decide (b.pid < a.pid) = false) found).filter
      fun r => r.pid == pid
    rw [h pid] at hperm
    cases hs : s.shown? pid (dictionary? pid) with
    | none =>
      rw [hs] at hperm
      exact List.perm_nil.mp hperm
    | some r =>
      rw [hs] at hperm
      exact List.perm_singleton.mp hperm

/-- A listing with a filter that was read. -/
theorem list_parsed (hrun : s.isRunning = true) {filter : Option String} {g : Option Filter}
    (hg : filter.mapM Filter.parse = .ok g) :
    s.list filter = (s.storage.chain.foldlM (s.surveyBackend g) {}).map fun f =>
      Ranked.sort (fun a b => decide (a.pid < b.pid)) f.found := by
  have hbind : ∀ e : Except AdminError Findings,
      (e.bind fun f => .ok (Ranked.sort (fun a b => decide (a.pid < b.pid)) f.found)) =
        e.map fun f => Ranked.sort (fun a b => decide (a.pid < b.pid)) f.found := by
    rintro (e | f) <;> rfl
  unfold list
  rw [hrun]
  cases filter with
  | none =>
    cases hg
    exact hbind _
  | some text =>
    rw [Option.mapM_some] at hg
    cases hp : Filter.parse text with
    | error e =>
      rw [hp] at hg
      cases hg
    | ok a =>
      rw [hp] at hg
      cases hg
      dsimp only
      rw [hp]
      exact hbind _

/-- What is listed is decided by the foremost dictionaries that pass. -/
theorem list_foremost (hv : s.view.Filed) (hrun : s.isRunning = true) (hst : s.storage.Labelled)
    (hlist : ∀ l ∈ s.storage.chain, (s.storage.backend l.backend).unlistable = false)
    {filter : Option String} {g : Option Filter} (hg : filter.mapM Filter.parse = .ok g) :
    ∃ rs, s.list filter = .ok rs ∧ s.Lists (s.storage.foremost? (Filter.passes g)) rs := by
  obtain ⟨f, hf, hfound⟩ := foldlM_survey hv g s.storage.inventory {}
  have hshown : ∀ pid, f.found.filter (fun r => r.pid == pid) =
      (s.shown? pid (s.storage.foremost? (Filter.passes g) pid)).toList := by
    intro pid
    rw [hfound pid, Storage.find?_inventory hst]
    simp
  refine ⟨_, ?_, lists_sort hshown⟩
  have hbackends : s.storage.chain.foldlM (s.surveyBackend g) {} = .ok f := by
    rw [foldlM_surveyBackend g _ hlist]
    exact hf
  rw [list_parsed hrun hg, hbackends]
  rfl

/-! ### The dictionaries that decide -/

/-- Whether a dictionary that passes stands behind one of its pid that does not, and is shown. -/
def Overlooks (s : Session) (passes : Properties → Bool) : Prop :=
  ∃ pid x, s.storage.authority? pid = some x ∧ passes x.2 = false ∧
    s.shown? pid (s.storage.foremost? passes pid) ≠ none

theorem lists_iff_not_overlooks {passes : Properties → Bool} {rs : List Record}
    (h : s.Lists (s.storage.foremost? passes) rs) :
    s.Lists (s.storage.authoritative? passes) rs ↔ ¬s.Overlooks passes := by
  constructor
  · rintro hauth ⟨pid, x, hx, hfail, hshown⟩
    have hnone : s.storage.authoritative? passes pid = none := by
      rw [Storage.authoritative?, hx, Option.filter_some, hfail, if_neg Bool.false_ne_true]
    have hsame := (h.shown pid).symm.trans (hauth.shown pid)
    rw [hnone] at hsame
    obtain ⟨r, hr⟩ := Option.ne_none_iff_exists'.mp hshown
    rw [hr] at hsame
    cases hsame
  · intro hover
    refine ⟨h.sorted, fun pid => ?_⟩
    rw [h.shown pid, Storage.authoritative?]
    cases hx : s.storage.authority? pid with
    | none => rw [Storage.foremost?_of_no_authority hx, Option.filter_none]
    | some x =>
      rw [Option.filter_some]
      split
      · next hpass => rw [Storage.foremost?_of_authority hx hpass]
      · next hfail =>
        -- whatever stands behind is not shown
        have hnone : s.shown? pid (s.storage.foremost? passes pid) = none := by
          by_contra hshown
          exact hover ⟨pid, x, hx, by simpa using hfail, hshown⟩
        rw [hnone]
        rfl

/-- **Listing.**  Where dictionaries are stored under their own pids, and the backends can be
listed, a listing with a filter that can be read shows for every pid, in their order and once each,
the record of the foremost dictionary that passes; the cached record, if there is one, and otherwise
the one that is rebuilt from the dictionary; unless it was never updated or is deleted.  The record
is shown by the dictionary of highest rank, if it passes, and by no other, exactly if no dictionary
is shown that stands behind one of its pid that does not pass. -/
theorem lists_authoritative_iff {w : World} {settings : Settings} (hs : start w settings = .ok s)
    (hw : w.storage.Labelled) {actions : List Action} (ha : ∀ a ∈ actions, a.KeepsLabels)
    (hlist : ∀ l ∈ (s.run actions).storage.chain,
      ((s.run actions).storage.backend l.backend).unlistable = false)
    {filter : Option String} {g : Option Filter} (hg : filter.mapM Filter.parse = .ok g) :
    ∃ rs, (s.run actions).list filter = .ok rs ∧
      (s.run actions).Lists ((s.run actions).storage.foremost? (Filter.passes g)) rs ∧
      ((s.run actions).Lists ((s.run actions).storage.authoritative? (Filter.passes g)) rs ↔
        ¬(s.run actions).Overlooks (Filter.passes g)) := by
  have htidy := start_tidy hs
  have hend : .shutdown ∉ actions := fun hm => ha _ hm
  have hrun : (s.run actions).isRunning = true := by
    have haccepting := run_accepting htidy.filed hend
    rw [start_view hs] at haccepting
    exact haccepting
  obtain ⟨rs, hrs, hlists⟩ := list_foremost (run_filed htidy.filed actions) hrun
    (run_labels htidy (start_labels hs hw) ha) hlist hg
  exact ⟨rs, hrs, hlists, lists_iff_not_overlooks hlists⟩

/-- A dictionary with a pid and one other property. -/
def leveled (pid level : String) : Properties :=
  (Table.empty.put Properties.pidKey (.text pid)).put "level" (.text level)

/-- One pid is stored in two backends. -/
def doubled : Storage :=
  (((Storage.add {} 1 "front").add 0 "back").withBackend "front"
    { dictionaries := Table.empty.put "lamp" (leveled "lamp" "high") }).withBackend "back"
    { dictionaries := Table.empty.put "lamp" (leveled "lamp" "low") }

theorem labelled_doubled : doubled.Labelled := by
  have hone : ∀ level, Backend.Labelled
      { dictionaries := Table.empty.put "lamp" (leveled "lamp" level) } := by
    intro level id d pid hd htext
    dsimp only at hd
    rw [Table.get?_put] at hd
    split at hd
    · next he =>
      cases hd
      exact (Option.some_inj.mp htext).symm.trans he.symm
    · cases hd
  intro name
  rw [doubled, Storage.backend_withBackend]
  split
  · exact hone "low"
  · rw [Storage.backend_withBackend]
    split
    · exact hone "high"
    · intro id d pid hd
      cases hd

/-- The record that was looked up is shown by the dictionary that stands in front. -/
theorem lists_authoritative_front :
    ∃ s rs, start { storage := doubled } {} = .ok s ∧ doubled.Labelled ∧
      (s.run [.getExisting "lamp"]).list (some "(level=high)") = .ok rs ∧
      (s.run [.getExisting "lamp"]).Lists ((s.run [.getExisting "lamp"]).storage.foremost?
        (Filter.passes (some (.item "level" .equal "high")))) rs ∧
      rs.map Record.pid = ["lamp"] := by
  obtain ⟨s, hs⟩ : ∃ s, start { storage := doubled } {} = .ok s := ⟨_, rfl⟩
  have hkeeps : ∀ a ∈ [Action.getExisting "lamp"], a.KeepsLabels := by
    simp [Action.KeepsLabels]
  have hread : (some "(level=high)").mapM Filter.parse =
      .ok (some (.item "level" .equal "high")) := rfl
  have hall : (∀ l ∈ (s.run [.getExisting "lamp"]).storage.chain,
        ((s.run [.getExisting "lamp"]).storage.backend l.backend).unlistable = false) ∧
      ((s.run [.getExisting "lamp"]).list (some "(level=high)")).toOption.map
        (fun rs => rs.map Record.pid) = some ["lamp"] := by
    cases hs
    decide +kernel
  obtain ⟨hlist, hpids⟩ := hall
  obtain ⟨rs, hrs, hlists, -⟩ := lists_authoritative_iff hs labelled_doubled hkeeps hlist hread
  rw [hrs] at hpids
  exact ⟨s, rs, hs, labelled_doubled, hrs, hlists, Option.some_inj.mp hpids⟩

/-- What stands behind is listed, too. -/
theorem list_overlooks_front :
    ∃ s rs, start { storage := doubled } {} = .ok s ∧ doubled.Labelled ∧
      s.list (some "(level=low)") = .ok rs ∧ rs.map Record.pid = ["lamp"] ∧
      Filter.parse "(level=low)" = .ok (.item "level" .equal "low") ∧
      ¬s.Lists (s.storage.authoritative?
        (Filter.passes (some (.item "level" .equal "low")))) rs := by
  obtain ⟨s, hs⟩ : ∃ s, start { storage := doubled } {} = .ok s := ⟨_, rfl⟩
  have hall : (s.list (some "(level=low)")).toOption.map (fun rs => rs.map Record.pid) =
        some ["lamp"] ∧
      (s.storage.authoritative? (Filter.passes (some (.item "level" .equal "low")))
        "lamp").isNone = true := by
    cases hs
    decide +kernel
  obtain ⟨hpids, hnone⟩ := hall
  obtain ⟨rs, hrs, hpids⟩ := Option.map_eq_some_iff.mp hpids
  have hlist : s.list (some "(level=low)") = .ok rs := by
    cases hl : s.list (some "(level=low)") with
    | error e =>
      rw [hl] at hrs
      cases hrs
    | ok rs' =>
      rw [hl] at hrs
      rw [Option.some_inj.mp hrs]
  refine ⟨s, rs, hs, labelled_doubled, hlist, hpids, rfl, fun hlists => ?_⟩
  have hshown := hlists.shown "lamp"
  rw [Option.isNone_iff_eq_none.mp hnone] at hshown
  obtain ⟨r, hr, hpid⟩ := List.mem_map.mp (hpids ▸ List.mem_singleton_self "lamp")
  have hmem : r ∈ rs.filter fun r => r.pid == "lamp" :=
    List.mem_filter.mpr ⟨hr, beq_iff_eq.mpr hpid⟩
  rw [hshown] at hmem
  cases hmem

end Session
end Provisioning
