import Provisioning.Proofs.Fronts

/-! # What consumers are promised

That nothing is lost rests on three things which hold between any two steps, of every cached
record and every consumer it is for.  A consumer that may see the record has taken what the
record holds, or a waiting task will hand it over (`Promised`).  A consumer that took
something may see the record, or a change of the owner waits that will take it away
(`Withheld`).  And the last callback says what the mark of the consumer says (`Heard`).

Beside them stands the order that they rely on (`Orderly`).  It speaks of what a record held at
each of its generations, which no session remembers; a history is kept along for it.
-/
namespace Provisioning

/-- What each record held at each of its generations. -/
abbrev History := Handle → Nat → Option Properties

/-- What a record holds is written down under its generation. -/
def History.revise (H : History) (h : Handle) (r : Record) : History :=
  fun h' g => if h' = h ∧ g = r.counter then r.properties else H h' g

theorem History.revise_self (H : History) (h : Handle) (r : Record) :
    H.revise h r h r.counter = r.properties :=
  if_pos ⟨rfl, rfl⟩

theorem History.revise_ne (H : History) {h i : Handle} (hne : i ≠ h) (r : Record) (g : Nat) :
    H.revise h r i g = H i g :=
  if_neg fun he => hne he.1

namespace Call

/-- Whether a callback was made to a consumer on behalf of a record. -/
def isAbout (h : Handle) (c : Consumer) (k : Call) : Bool :=
  decide (k.consumer = c) && k.occasion.any fun o => o.record == h

/-- Whether a callback hands over properties, those that the plugins were given. -/
def Hands (k : Call) (p : Properties) : Prop :=
  k.message.properties? ≠ none ∧ ∃ o g, k.occasion = some o ∧ o.given = some (p, g)

theorem isAbout_iff {h : Handle} {c : Consumer} {k : Call} :
    k.isAbout h c = true ↔ k.consumer = c ∧ ∃ o, k.occasion = some o ∧ o.record = h := by
  unfold isAbout
  rw [Bool.and_eq_true, decide_eq_true_iff, Option.any_eq_true]
  simp only [beq_iff_eq]

end Call

namespace View

variable (H : History) (v : View) (h : Handle) (c : Consumer)

/-- The callbacks to a consumer on behalf of a record, in order. -/
def words : List Call := v.calls.filter (Call.isAbout h c)

/-- The mark of a consumer: the highest generation of a record that it took. -/
def mark? : Option Nat := (v.record h).watermark? c.service.id

/-- The record is the cached one of its pid. -/
def Known : Prop := v.cached.get? (v.record h).pid = some h

/-- From a generation on, a record has held what it holds now. -/
def Lasts (g : Nat) : Prop :=
  ∀ g', g ≤ g' → g' ≤ (v.record h).counter → H h g' = (v.record h).properties

/-- A consumer took a generation, or may not see the record. -/
def Reached (g : Nat) : Prop :=
  (∃ w, v.mark? h c = some w ∧ g ≤ w) ∨
    ∃ o, (v.record h).owner = some o ∧ v.permits c.service.location (some o) = false

/-- A consumer that took something of a record may see it. -/
def Rightful : Prop :=
  v.mark? h c = none ∨
    ∃ o, (v.record h).owner = some o ∧ v.permits c.service.location (some o) = true

end View

/-- A record that may be added while members are still to be struck off: it is blank, and no
member of that kind. -/
structure Record.Admissible (fading : String → String → Prop) (r : Record) : Prop where
  blank : r.Blank
  unfading : ∀ f, r.factoryPid = some f → ¬fading r.pid f

/-- Whether a waiting task will hand a consumer what a record holds. -/
def Task.Promises (H : History) (v : View) (h : Handle) (c : Consumer) : Task → Prop
  | .deliver h' g _ => h' = h ∧ v.Lasts H h g
  | .relocate h' former => h' = h ∧ v.permits c.service.location former = false
  | .attach c' _ snapshot => c' = c ∧ ∃ p g, snapshot = some ⟨h, some p, g⟩ ∧ v.Lasts H h g
  | .attachFactory c' _ members => c' = c ∧ ∃ p g, ⟨h, some p, g⟩ ∈ members ∧ v.Lasts H h g
  | .retract _ _ => False

namespace View

variable (H : History) (v : View) (h : Handle) (c : Consumer)

/-- A consumer that may see a record took what the record holds, or a task will hand it over;
unless the consumer is still owed its greeting under the identity of the record. -/
def Promised (owed : Consumer → String → Prop) : Prop :=
  v.Known h → c ∈ v.targets h → v.permits c.service.location (v.record h).owner = true →
    (v.record h).properties ≠ none → ¬owed c (v.record h).target.identity →
      (∃ w, v.mark? h c = some w ∧ v.Lasts H h w) ∨ ∃ t ∈ v.waiting, t.Promises H v h c

/-- A consumer that took something of a record may see it, or a change of the owner waits under
which the consumer saw it before. -/
def Withheld : Prop :=
  v.Known h → c ∈ v.targets h → v.Rightful h c ∨
    ∃ former, .relocate h former ∈ v.waiting ∧ v.permits c.service.location former = true

/-- The last callback to a consumer says what its mark says; or it says that there are no
properties, and came too late for it. -/
structure Heard (late : Handle → Consumer → List Call → Prop) : Prop where
  unmarked : v.mark? h c = none →
    ∀ k, (v.words h c).getLast? = some k → k.message.properties? = none
  marked : ∀ w, v.mark? h c = some w →
    (∃ k p, (v.words h c).getLast? = some k ∧ H h w = some p ∧ k.Hands p) ∨
      late h c (v.words h c)

/-- A snapshot is one of the generations of a record. -/
def Recalls (m : Snapshot) : Prop :=
  m.record < v.records.length ∧ m.generation ≤ (v.record m.record).counter ∧
    H m.record m.generation = m.properties

/-- A member of a factory was deleted, and is still to be struck off the roster. -/
def Fading (pid factoryPid : String) : Prop :=
  ∃ h owner, .retract h owner ∈ v.waiting ∧ (v.record h).pid = pid ∧
    (v.record h).factoryPid = some factoryPid

end View

namespace Task

/-- What a task refers to is there, and of the right kind. -/
def Fits (v : View) : Task → Prop
  | .deliver _ _ _ => True
  | .retract h _ => (v.record h).deleted = true
  | .relocate h _ => h < v.records.length
  | .attach c _ _ => c ∈ v.directory.consumers ∧ c.kind = .single
  | .attachFactory c f members =>
    c ∈ v.directory.consumers ∧ c.kind = .factory ∧
      ∀ m ∈ members, (v.record m.record).factoryPid = some f

/-- A task fits the records, and what it has captured of them was there. -/
structure Sound (H : History) (v : View) (t : Task) : Prop where
  recalls : ∀ m ∈ t.snapshots, v.Recalls H m
  fits : t.Fits v

/-- Of two deliveries of a record the earlier one has the lower generation. -/
def Precedes (t t' : Task) : Prop :=
  ∀ h g p g' p', t = .deliver h g p → t' = .deliver h g' p' → g < g'

end Task

namespace View

/-- The order that a session keeps while nothing is stored, submitted or shut down by others. -/
structure Orderly (H : History) (v : View) : Prop where
  filed : v.Filed
  accepting : v.accepting = true
  wellKept : v.directory.WellKept
  /-- Nobody is kept from what belongs to its own location. -/
  own : ∀ l, v.permits l (some l) = true
  sound : ∀ t ∈ v.waiting, t.Sound H v
  called : ∀ k ∈ v.calls, k.consumer ∈ v.directory.consumers ∧
    ∀ o, k.occasion = some o → o.record < v.records.length
  marked : ∀ h id w, (v.record h).watermark? id = some w →
    w ≤ (v.record h).counter ∧ id ≤ v.directory.registrations ∧ H h w ≠ none
  current : ∀ h < v.records.length, H h (v.record h).counter = (v.record h).properties
  unborn : ∀ h, v.records.length ≤ h → ∀ g, H h g = none
  /-- A record that once had properties has some for good. -/
  lasting : ∀ h g, g ≤ (v.record h).counter → H h g ≠ none → (v.record h).properties ≠ none
  ordered : v.waiting.Pairwise Task.Precedes
  ahead : ∀ h g p, .deliver h g p ∈ v.waiting → (v.record h).delivered < g
  reached : ∀ h, (v.record h).delivered ≤ (v.record h).counter
  /-- A member that has properties is listed by its factory. -/
  listed : ∀ h f, v.Known h → (v.record h).factoryPid = some f →
    (v.record h).properties ≠ none → v.lists f (v.record h).pid = true
  unfading : ∀ h f, v.Known h → (v.record h).factoryPid = some f →
    ¬v.Fading (v.record h).pid f

/-- An orderly session that owes nobody more than the waiting tasks will bring. -/
structure Pledge (H : History) (owed : Consumer → String → Prop)
    (late : Handle → Consumer → List Call → Prop) (v : View) : Prop extends Orderly H v where
  promised : ∀ h c, v.Promised H h c owed
  withheld : ∀ h c, v.Withheld h c
  heard : ∀ h c, v.Known h → c ∈ v.directory.consumers →
    v.directory.isLive c.service = true → v.Heard H h c late

/-! ### Consequences of the order -/

section Frames

variable {H H' : History} {owed : Consumer → String → Prop}
variable {late : Handle → Consumer → List Call → Prop}
variable {v v' : View} {h : Handle} {c : Consumer}

theorem mark?_change_self (hlt : h < v.records.length) (f : Record → Record) (c : Consumer) :
    (v.change h f).mark? h c = (f (v.record h)).watermark? c.service.id := by
  rw [mark?, v.record_change_self hlt]

theorem Filed.known {pid : String} (hv : v.Filed) (hc : v.cached.get? pid = some h) :
    v.Known h := by
  obtain ⟨-, hpid, -⟩ := hv.held pid h hc
  rw [Known, hpid]
  exact hc

theorem Orderly.known_lt (hv : v.Orderly H) (hk : v.Known h) : h < v.records.length :=
  (hv.filed.held _ h hk).1

theorem Orderly.undeleted (hv : v.Orderly H) (hk : v.Known h) : (v.record h).deleted = false :=
  (hv.filed.held _ h hk).2.2

theorem Lasts.le {g g' : Nat} (hl : v.Lasts H h g) (hle : g ≤ g') : v.Lasts H h g' :=
  fun i hi => hl i (Nat.le_trans hle hi)

/-- What a mark stands for is what the record holds, once it lasts. -/
theorem Lasts.eq {g : Nat} (hl : v.Lasts H h g) (hle : g ≤ (v.record h).counter) :
    H h g = (v.record h).properties :=
  hl g (Nat.le_refl g) hle

end Frames

end View

theorem Task.Promises.mono {H H' : History} {v v' : View} {h : Handle} {c : Consumer} {t : Task}
    (ht : t.Promises H v h c)
    (hp : ∀ owner, v'.permits c.service.location owner = v.permits c.service.location owner)
    (hl : ∀ g, v.Lasts H h g → v'.Lasts H' h g) : t.Promises H' v' h c := by
  cases t with
  | deliver => exact ⟨ht.1, hl _ ht.2⟩
  | relocate => exact ⟨ht.1, (hp _).trans ht.2⟩
  | attach =>
    obtain ⟨hc, p, g, hs, hlast⟩ := ht
    exact ⟨hc, p, g, hs, hl g hlast⟩
  | attachFactory =>
    obtain ⟨hc, p, g, hm, hlast⟩ := ht
    exact ⟨hc, p, g, hm, hl g hlast⟩
  | retract => exact ht.elim

namespace View

variable {H H' : History} {owed : Consumer → String → Prop}
variable {late : Handle → Consumer → List Call → Prop}
variable {v v' : View} {h : Handle} {c : Consumer}

/-- Callbacks and mark agree as long as neither changes, nor what the mark stands for. -/
theorem Heard.carry (hh : v.Heard H h c late) (hmark : v'.mark? h c = v.mark? h c)
    (hwords : v'.words h c = v.words h c) (hH : ∀ w, v.mark? h c = some w → H' h w = H h w) :
    v'.Heard H' h c late := by
  constructor
  · intro hn
    rw [hwords]
    exact hh.unmarked (hmark ▸ hn)
  · intro w hw
    rw [hmark] at hw
    rw [hwords, hH w hw]
    exact hh.marked w hw

/-! ### What other records leave alone -/

/-- A record is spared: nothing that is asked of it has changed, and no task is taken away. -/
structure Spares (h : Handle) (v v' : View) : Prop where
  record : v'.record h = v.record h
  known : v'.Known h → v.Known h
  directory : v'.directory = v.directory
  access : v'.access = v.access
  calls : v'.calls = v.calls
  waiting : ∀ t ∈ v.waiting, t ∈ v'.waiting

namespace Spares

theorem permits (hs : Spares h v v') (l : String) (o : Option String) :
    v'.permits l o = v.permits l o :=
  permits_of_access hs.access l o

theorem targets (hs : Spares h v v') : v'.targets h = v.targets h := by
  unfold View.targets
  rw [hs.record, hs.directory]

theorem mark? (hs : Spares h v v') (c : Consumer) : v'.mark? h c = v.mark? h c := by
  unfold View.mark?
  rw [hs.record]

theorem words (hs : Spares h v v') (c : Consumer) : v'.words h c = v.words h c := by
  unfold View.words
  rw [hs.calls]

theorem lasts (hs : Spares h v v') (hH : ∀ g, H' h g = H h g) {g : Nat}
    (hl : v.Lasts H h g) : v'.Lasts H' h g := by
  intro g' hg hle
  rw [hs.record] at hle ⊢
  rw [hH]
  exact hl g' hg hle

theorem promised (hs : Spares h v v') (hH : ∀ g, H' h g = H h g)
    (hp : v.Promised H h c owed) : v'.Promised H' h c owed := by
  intro hk hc hperm hprop howed
  rw [hs.targets] at hc
  rw [hs.permits, hs.record] at hperm
  rw [hs.record] at hprop howed
  rcases hp (hs.known hk) hc hperm hprop howed with ⟨w, hw, hl⟩ | ⟨t, ht, hpr⟩
  · exact Or.inl ⟨w, (hs.mark? c).trans hw, hs.lasts hH hl⟩
  · exact Or.inr ⟨t, hs.waiting t ht, hpr.mono (hs.permits _) fun _ => hs.lasts hH⟩

theorem rightful (hs : Spares h v v') (hr : v.Rightful h c) : v'.Rightful h c := by
  unfold Rightful at hr ⊢
  rw [hs.mark?, hs.record]
  simpa only [hs.permits] using hr

theorem withheld (hs : Spares h v v') (hw : v.Withheld h c) : v'.Withheld h c := by
  intro hk hc
  rw [hs.targets] at hc
  rcases hw (hs.known hk) hc with hr | ⟨former, hm, hp⟩
  · exact Or.inl (hs.rightful hr)
  · exact Or.inr ⟨former, hs.waiting _ hm, (hs.permits _ _).trans hp⟩

theorem heard (hs : Spares h v v') (hH : ∀ g, H' h g = H h g) (hh : v.Heard H h c late) :
    v'.Heard H' h c late :=
  hh.carry (hs.mark? c) (hs.words c) fun w _ => hH w

end Spares

/-! ### What keeps the order -/

/-- Records are added, or move on by one generation; nobody is called, and nothing is queued. -/
structure Grows (H H' : History) (v v' : View) : Prop where
  length : v.records.length ≤ v'.records.length
  step : ∀ i < v.records.length,
    ((v'.record i).counter = (v.record i).counter ∧
      (v'.record i).properties = (v.record i).properties) ∨
    ((v'.record i).counter = (v.record i).counter + 1 ∧
      H' i (v'.record i).counter = (v'.record i).properties ∧
      ((v.record i).properties ≠ none → (v'.record i).properties ≠ none))
  history : ∀ i g, g ≤ (v.record i).counter ∨ v.records.length ≤ i → H' i g = H i g
  identity : ∀ i < v.records.length, (v'.record i).pid = (v.record i).pid ∧
    (v'.record i).factoryPid = (v.record i).factoryPid
  delivered : ∀ i < v.records.length, (v'.record i).delivered = (v.record i).delivered
  deleted : ∀ i, (v.record i).deleted = true → (v'.record i).deleted = true
  fresh : ∀ i, v.records.length ≤ i →
    (v'.record i).properties = none ∧ (v'.record i).delivered = 0
  marks : ∀ i id w, (v'.record i).watermark? id = some w → (v.record i).watermark? id = some w
  consumers : ∀ c ∈ v.directory.consumers, c ∈ v'.directory.consumers
  registrations : v.directory.registrations ≤ v'.directory.registrations
  waiting : v'.waiting = v.waiting
  calls : v'.calls = v.calls
  access : v'.access = v.access
  accepting : v'.accepting = v.accepting

namespace Grows

theorem counter_le (hg : Grows H H' v v') {i : Handle} (hi : i < v.records.length) :
    (v.record i).counter ≤ (v'.record i).counter := by
  rcases hg.step i hi with ⟨he, -⟩ | ⟨he, -⟩ <;> omega

theorem recalls (hg : Grows H H' v v') {m : Snapshot} (hm : v.Recalls H m) :
    v'.Recalls H' m := by
  obtain ⟨hlt, hle, hh⟩ := hm
  refine ⟨Nat.lt_of_lt_of_le hlt hg.length, Nat.le_trans hle (hg.counter_le hlt), ?_⟩
  rw [hg.history _ _ (Or.inl hle)]
  exact hh

theorem sound (hg : Grows H H' v v') {t : Task} (ht : t.Sound H v) : t.Sound H' v' := by
  refine ⟨fun m hm => hg.recalls (ht.recalls m hm), ?_⟩
  have hfits := ht.fits
  cases t with
  | deliver => trivial
  | retract h owner => exact hg.deleted h hfits
  | relocate h former => exact Nat.lt_of_lt_of_le hfits hg.length
  | attach c pid snapshot => exact ⟨hg.consumers c hfits.1, hfits.2⟩
  | attachFactory c f members =>
    obtain ⟨hc, hk, hm⟩ := hfits
    refine ⟨hg.consumers c hc, hk, fun m hmem => ?_⟩
    rw [(hg.identity _ (ht.recalls m hmem).1).2]
    exact hm m hmem

end Grows

theorem Orderly.retracted_lt (hv : v.Orderly H) {owner : Option String}
    (ht : .retract h owner ∈ v.waiting) : h < v.records.length :=
  lt_of_deleted (hv.sound _ ht).fits

/-- **What grows stays in order**, as long as it is filed and listed. -/
theorem Orderly.grows (hv : v.Orderly H) (hg : Grows H H' v v') (filed : v'.Filed)
    (wellKept : v'.directory.WellKept)
    (listed : ∀ h f, v'.Known h → (v'.record h).factoryPid = some f →
      (v'.record h).properties ≠ none → v'.lists f (v'.record h).pid = true)
    (unfading : ∀ h f, v'.Known h → (v'.record h).factoryPid = some f →
      ¬v.Fading (v'.record h).pid f) : v'.Orderly H' where
  filed := filed
  accepting := hg.accepting.trans hv.accepting
  wellKept := wellKept
  own := by
    unfold permits
    rw [hg.access]
    exact hv.own
  sound := by
    rw [hg.waiting]
    exact fun t ht => hg.sound (hv.sound t ht)
  called := by
    rw [hg.calls]
    intro k hk
    obtain ⟨hc, ho⟩ := hv.called k hk
    exact ⟨hg.consumers _ hc, fun o h => Nat.lt_of_lt_of_le (ho o h) hg.length⟩
  marked := by
    intro h id w hw
    obtain ⟨hle, hid, hh⟩ := hv.marked h id w (hg.marks h id w hw)
    -- nothing is written down of records that are not there yet
    have hlt : h < v.records.length := by
      by_contra hge
      exact hh (hv.unborn h (Nat.le_of_not_lt hge) w)
    refine ⟨Nat.le_trans hle (hg.counter_le hlt), Nat.le_trans hid hg.registrations, ?_⟩
    rw [hg.history h w (Or.inl hle)]
    exact hh
  current := by
    intro h hlt'
    by_cases hlt : h < v.records.length
    · rcases hg.step h hlt with ⟨hc, hp⟩ | ⟨-, hh, -⟩
      · rw [hc, hp, hg.history h _ (Or.inl (Nat.le_refl _))]
        exact hv.current h hlt
      · exact hh
    · -- a record that was added
      have hge := Nat.le_of_not_lt hlt
      rw [hg.history h _ (Or.inr hge), (hg.fresh h hge).1]
      exact hv.unborn h hge _
  unborn := by
    intro h hge g
    have hge' := Nat.le_trans hg.length hge
    rw [hg.history h g (Or.inr hge')]
    exact hv.unborn h hge' g
  lasting := by
    intro h g hle hh
    by_cases hlt : h < v.records.length
    · rcases hg.step h hlt with ⟨hc, hp⟩ | ⟨hc, hnew, hkept⟩
      · rw [hc] at hle
        rw [hg.history h g (Or.inl hle)] at hh
        rw [hp]
        exact hv.lasting h g hle hh
      · by_cases hold : g ≤ (v.record h).counter
        · rw [hg.history h g (Or.inl hold)] at hh
          exact hkept (hv.lasting h g hold hh)
        · -- the new generation
          have he : g = (v'.record h).counter := by omega
          rw [he, hnew] at hh
          exact hh
    · have hge := Nat.le_of_not_lt hlt
      rw [hg.history h g (Or.inr hge)] at hh
      exact absurd (hv.unborn h hge g) hh
  ordered := by
    rw [hg.waiting]
    exact hv.ordered
  ahead := by
    rw [hg.waiting]
    intro h g p ht
    have hlt := ((hv.sound _ ht).recalls _ List.mem_cons_self).1
    rw [hg.delivered h hlt]
    exact hv.ahead h g p ht
  reached := by
    intro h
    by_cases hlt : h < v.records.length
    · rw [hg.delivered h hlt]
      exact Nat.le_trans (hv.reached h) (hg.counter_le hlt)
    · rw [(hg.fresh h (Nat.le_of_not_lt hlt)).2]
      exact Nat.zero_le _
  listed := listed
  unfading := by
    rintro h f hk hf ⟨h', owner, ht, hp, hf'⟩
    rw [hg.waiting] at ht
    have hlt := hv.retracted_lt ht
    rw [(hg.identity h' hlt).1] at hp
    rw [(hg.identity h' hlt).2] at hf'
    exact unfading h f hk hf ⟨h', owner, ht, hp, hf'⟩

/-! ### Look-ups -/

theorem record_adopt (v : View) (r : Record) (h : Handle) :
    (v.adopt r).record h = if h = v.records.length then r else v.record h := by
  show (v.enroll r).record h = _
  rcases Nat.lt_trichotomy h v.records.length with hlt | rfl | hgt
  · rw [if_neg (Nat.ne_of_lt hlt), record_enroll_lt v hlt]
  · rw [if_pos rfl, record_enroll_new]
  · rw [if_neg (Nat.ne_of_gt hgt), record_enroll_gt v hgt]

/-- Only the new record is known beside those that were. -/
theorem known_adopt {r : Record} (hk : (v.adopt r).Known h) (hne : h ≠ v.records.length) :
    v.Known h := by
  unfold Known at hk ⊢
  rw [record_adopt, if_neg hne, cached_adopt] at hk
  split at hk
  · cases hk
    exact absurd rfl hne
  · exact hk

theorem spares_adopt (r : Record) (hne : h ≠ v.records.length) : Spares h v (v.adopt r) where
  record := by rw [record_adopt, if_neg hne]
  known := fun hk => known_adopt hk hne
  directory := rfl
  access := rfl
  calls := rfl
  waiting := fun _ ht => ht

theorem grows_adopt {r : Record} (hr : r.Blank) : Grows H H v (v.adopt r) := by
  have hold : ∀ i < v.records.length, (v.adopt r).record i = v.record i := fun i hi => by
    rw [record_adopt, if_neg (Nat.ne_of_lt hi)]
  refine ⟨?_, fun i hi => Or.inl ?_, fun _ _ _ => rfl, fun i hi => ?_, fun i hi => ?_,
    fun i hd => ?_, fun i hi => ?_, fun i id w hw => ?_, fun _ hc => hc, Nat.le_refl _, rfl, rfl,
    rfl, rfl⟩
  · simp [View.adopt, enroll]
  · rw [hold i hi]
    exact ⟨rfl, rfl⟩
  · rw [hold i hi]
    exact ⟨rfl, rfl⟩
  · rw [hold i hi]
  · rw [hold i (lt_of_deleted hd)]
    exact hd
  · rw [record_adopt]
    split
    · exact ⟨hr.properties, hr.delivered⟩
    · rw [record_of_length_le hi]
      exact ⟨rfl, rfl⟩
  · rw [record_adopt] at hw
    split at hw
    · rw [hr.toUntouched.watermark?] at hw
      cases hw
    · exact hw

theorem Orderly.adopt (hv : v.Orderly H) {r : Record} (hr : r.Admissible v.Fading) :
    (v.adopt r).Orderly H := by
  refine hv.grows (grows_adopt hr.blank) (hv.filed.adopt hr.blank.undeleted) hv.wellKept ?_ ?_
  · intro i f hk hf hp
    by_cases he : i = v.records.length
    · rw [record_adopt, if_pos he, hr.blank.properties] at hp
      exact absurd rfl hp
    · rw [record_adopt, if_neg he] at hf hp ⊢
      exact hv.listed i f (known_adopt hk he) hf hp
  · intro i f hk hf
    by_cases he : i = v.records.length
    · rw [record_adopt, if_pos he] at hf ⊢
      exact hr.unfading f hf
    · rw [record_adopt, if_neg he] at hf ⊢
      exact hv.unfading i f (known_adopt hk he) hf

/-- Of a record that is added there is nothing to be told yet. -/
theorem Pledge.adopt (hv : v.Pledge H owed late) {r : Record} (hr : r.Admissible v.Fading) :
    (v.adopt r).Pledge H owed late := by
  have hnew : (v.adopt r).record v.records.length = r := by
    rw [record_adopt, if_pos rfl]
  have hmark : ∀ c, (v.adopt r).mark? v.records.length c = none := by
    intro c
    rw [mark?, hnew]
    exact hr.blank.toUntouched.watermark? _
  refine ⟨hv.toOrderly.adopt hr, fun i c => ?_, fun i c => ?_, fun i c hk hc hl => ?_⟩
  · by_cases he : i = v.records.length
    · subst he
      intro _ _ _ hp
      rw [hnew, hr.blank.properties] at hp
      exact absurd rfl hp
    · exact (spares_adopt r he).promised (fun _ => rfl) (hv.promised i c)
  · by_cases he : i = v.records.length
    · subst he
      exact fun _ _ => Or.inl (Or.inl (hmark c))
    · exact (spares_adopt r he).withheld (hv.withheld i c)
  · by_cases he : i = v.records.length
    · subst he
      refine ⟨fun _ k hlast => ?_, fun w hw => ?_⟩
      · -- no callback is about a record that was not there
        have hmem := List.mem_of_getLast? hlast
        obtain ⟨hk, hab⟩ := List.mem_filter.mp hmem
        obtain ⟨-, o, ho, hrec⟩ := Call.isAbout_iff.mp hab
        exact absurd hrec (Nat.ne_of_lt ((hv.called k hk).2 o ho))
      · rw [hmark] at hw
        cases hw
    · exact (spares_adopt r he).heard (fun _ => rfl) (hv.heard i c (known_adopt hk he) hc hl)

theorem Pledge.file (hv : v.Pledge H owed late)
    (hf : Filing (fun f pid => ¬v.HasMember f pid) v v') : v'.Pledge H owed late := by
  have hfiled := hf.filed hv.filed
  have hlists := hf.lists hv.filed
  obtain ⟨rosters, rfl⟩ := hf.exists_rosters
  have hspares : ∀ i, Spares i v { v with rosters } :=
    fun i => ⟨rfl, id, rfl, rfl, rfl, fun _ ht => ht⟩
  have hgrows : Grows H H v { v with rosters } :=
    ⟨Nat.le_refl _, fun _ _ => Or.inl ⟨rfl, rfl⟩, fun _ _ _ => rfl, fun _ _ => ⟨rfl, rfl⟩,
      fun _ _ => rfl, fun _ hd => hd,
      fun i hi => by
        rw [show ({ v with rosters } : View).record i = v.record i from rfl,
          record_of_length_le hi]
        exact ⟨rfl, rfl⟩,
      fun _ _ _ hw => hw, fun _ hc => hc, Nat.le_refl _, rfl, rfl, rfl, rfl⟩
  refine ⟨hv.toOrderly.grows hgrows hfiled hv.wellKept (fun i f hk hf' hp => ?_)
    fun i f hk hf' => hv.unfading i f hk hf',
    fun i c => (hspares i).promised (fun _ => rfl) (hv.promised i c),
    fun i c => (hspares i).withheld (hv.withheld i c),
    fun i c hk hc hl => (hspares i).heard (fun _ => rfl) (hv.heard i c hk hc hl)⟩
  rcases hlists f _ (hv.listed i f hk hf' hp) with hl | hno
  · exact hl
  · exact absurd ⟨i, hk, hf'⟩ hno

/-- **Looking things up breaks no promise.** -/
theorem Pledge.lookups {fading : String → String → Prop} (hv : v.Pledge H owed late)
    (hfad : ∀ pid f, v.Fading pid f → fading pid f)
    (hl : v.Lookups (Record.Admissible fading) v') : v'.Pledge H owed late := by
  suffices h : v'.Pledge H owed late ∧ ∀ pid f, v'.Fading pid f → fading pid f from h.1
  induction hl with
  | refl => exact ⟨hv, hfad⟩
  | @tail v₁ v₂ _ hlast ih =>
    obtain ⟨hv₁, hfad₁⟩ := ih
    have hext := hlast.extends
    refine ⟨?_, ?_⟩
    · cases hlast with
      | adopt _ _ admitted =>
        exact hv₁.adopt ⟨admitted.blank, fun f hf hfade =>
          admitted.unfading f hf (hfad₁ _ f hfade)⟩
      | file hf => exact hv₁.file hf
    · rintro pid f ⟨i, owner, ht, hp, hf⟩
      rw [hext.waiting] at ht
      have hlt := hv₁.toOrderly.retracted_lt ht
      rw [hext.record_eq hlt] at hp hf
      exact hfad₁ pid f ⟨i, owner, ht, hp, hf⟩

end View
end Provisioning
