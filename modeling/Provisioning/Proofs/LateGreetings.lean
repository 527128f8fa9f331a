import Mathlib.Data.List.Induction
import Provisioning.Proofs.Moves

/-! # Updates arrive, unless a greeting comes too late

Calls, hooks and work may follow one another in any order.  When nothing waits any more, a
consumer that may see a record with properties was last handed just these, with one exception.
A consumer that is registered before the first update of a record is to be told that there are no
properties yet.  When a change of the owner that waits before this greeting serves the consumer
first, the greeting still comes, and the update behind it, which was served already, does not come
again.  So the consumer is left with nothing, until the record changes the next time.

`LateGreeted` is this exception, and there is no other.
-/
namespace Provisioning
namespace Session

variable (s : Session)

/-- Some step of work has told a consumer that a record has no properties, which the consumer had
been handed before; these were the words, and no other word has followed. -/
def Late (ms : List Move) (h : Handle) (c : Consumer) (words : List Call) : Prop :=
  ∃ before after, ms = before ++ .work :: after ∧ (s.moves before).view.LateGreeting h c ∧
    words = (s.moves (before ++ [.work])).words h c

/-- The last that a consumer has heard of a record is a greeting that came too late. -/
def LateGreeted (ms : List Move) (h : Handle) (c : Consumer) : Prop :=
  s.Late ms h c ((s.moves ms).words h c)

/-- Names for new members are drawn at random: the name of a member that was deleted, and is still
to be struck off its roster, is not drawn again in the meantime. -/
def DrawsClear (ms : List Move) : Prop :=
  ∀ before m after, ms = before ++ m :: after → (s.moves before).Clear m

variable {s}

theorem DrawsClear.of_unnamed {ms : List Move}
    (hn : ∀ action administrative, .call action administrative ∈ ms → action.names = []) :
    s.DrawsClear ms := by
  rintro before m after rfl action administrative rfl pid hp
  rw [hn action administrative (by simp)] at hp
  exact absurd hp List.not_mem_nil

theorem Late.append {before : List Move} {h : Handle} {c : Consumer} {words : List Call}
    (hl : s.Late before h c words) (after : List Move) : s.Late (before ++ after) h c words := by
  obtain ⟨front, back, rfl, hgreet, hwords⟩ := hl
  exact ⟨front, back ++ after, by simp, hgreet, hwords⟩

/-- **Every order of moves keeps what is promised**, but for the greetings that come too late. -/
theorem moves_kept (hs : s.Kept fun _ _ _ => False) {ms : List Move} (hn : s.DrawsClear ms) :
    (s.moves ms).Kept (s.Late ms) := by
  induction ms using List.reverseRecOn with
  | nil =>
    obtain ⟨hstocked, H, hp⟩ := hs
    exact ⟨hstocked, H, { hp with
      heard := fun h c hk hc hl => (hp.heard h c hk hc hl).late_mono fun _ hx => hx.elim }⟩
  | append_singleton before m ih =>
    have hbefore : s.DrawsClear before := by
      rintro front m' back rfl
      exact hn front m' (back ++ [m]) (by simp)
    rw [moves_concat]
    refine (ih hbefore).move (hn before m [] rfl) (fun h c words hl => hl.append [m])
      fun h c hm hl => ?_
    -- the move is the work that greets too late
    subst hm
    exact ⟨before, [], rfl, hl, by rw [moves_concat]⟩

/-- A greeting that came too late left the consumer without properties. -/
theorem LateGreeted.last {ms : List Move} (hs : s.Kept fun _ _ _ => False)
    (hn : s.DrawsClear ms) {h : Handle} {c : Consumer} (hl : s.LateGreeted ms h c) :
    ∃ k, (s.moves ms).lastWord h c = some k ∧ k.message.properties? = none := by
  obtain ⟨before, after, rfl, hgreet, hwords⟩ := hl
  have hbefore : s.DrawsClear before := by
    rintro front m back rfl
    exact hn front m (back ++ .work :: after) (by simp)
  obtain ⟨H, hp⟩ := (moves_kept hs hbefore).pledge
  obtain ⟨front, k, hlast, hnone⟩ := late_greeting_word hp.toOrderly hgreet
  refine ⟨k, ?_, hnone⟩
  unfold lastWord
  rw [hwords, moves_concat]
  have hlast' : ((s.moves before).move .work).words h c = front ++ [k] := hlast
  rw [hlast', List.getLast?_concat]

/-- **No update is lost but to a late greeting.**  Over one fresh backend, whatever the order of
moves: when no task waits, a live consumer that a cached record is for, and that may see it, was
last handed exactly the properties of the record, or else was last greeted too late. -/
theorem updates_arrive_iff {w : World} (hw : w.Fresh) (hown : w.Courteous) {settings : Settings}
    {s : Session} (hs : start w settings = .ok s) {ms : List Move} (hn : s.DrawsClear ms)
    (hdone : (s.moves ms).updates.waiting = []) {pid : String} {h : Handle}
    (hcached : (s.moves ms).cache.record? pid = some h) {p : Properties}
    (hprop : ((s.moves ms).record h).properties = some p) {c : Consumer}
    (hc : c ∈ ((s.moves ms).record h).target.resolve (s.moves ms).directory)
    (hperm : (s.moves ms).permits c.service.location ((s.moves ms).record h).owner = true) :
    (∃ k, (s.moves ms).lastWord h c = some k ∧ k.Hands p) ↔ ¬s.LateGreeted ms h c := by
  have hkept := start_kept hw hown hs
  obtain ⟨H, hp⟩ := (moves_kept hkept hn).pledge
  have hk : (s.moves ms).view.Known h := hp.filed.known hcached
  constructor
  · rintro ⟨k, hlast, hands⟩ hl
    obtain ⟨k', hlast', hnone⟩ := hl.last hkept hn
    rw [hlast] at hlast'
    cases hlast'
    exact hands.1 hnone
  · intro hno
    exact (hp.served hdone hk hc hprop hperm).resolve_right hno

/-- A record has two locations before its first update, and a consumer at the second is registered
in time to be greeted.  Then the update comes, before any work. -/
def overtaken : List Move :=
  [.call (.getOrCreate "pid" (some "elsewhere")) rfl, .call (.setLocation "pid" (some "here")) rfl,
    .register .single "here" ["pid"] 0, .call (.update "pid" .empty) (Eq.refl true), .work, .work,
    .work]

/-- The change of the location brings the properties to the consumer before the greeting does, and
the greeting takes them away. -/
theorem updates_arrive_iff_overtaken :
    ∃ s c, World.Fresh {} ∧ World.Courteous {} ∧ start {} {} = .ok s ∧ s.DrawsClear overtaken ∧
      (s.moves overtaken).updates.waiting = [] ∧
      (s.moves overtaken).cache.record? "pid" = some 0 ∧
      ((s.moves overtaken).record 0).properties ≠ none ∧ s.LateGreeted overtaken 0 c := by
  have hw : World.Fresh {} := ⟨rfl, rfl, Directory.wellKept_empty, Or.inl rfl⟩
  have hown : World.Courteous {} := by
    intro check hc
    cases hc
  obtain ⟨s, hs⟩ : ∃ s, start {} {} = .ok s := ⟨_, rfl⟩
  have hn : s.DrawsClear overtaken := by
    refine .of_unnamed fun action administrative hm => ?_
    simp only [overtaken, List.mem_cons, reduceCtorEq, List.not_mem_nil, or_false, false_or] at hm
    rcases hm with he | he | he <;>
      · cases he
        rfl
  have hall : (s.moves overtaken).updates.waiting = [] ∧
      (s.moves overtaken).cache.record? "pid" = some 0 ∧
      ((s.moves overtaken).record 0).properties.isSome = true ∧
      (((s.moves overtaken).record 0).target.resolve (s.moves overtaken).directory).any (fun c =>
        (s.moves overtaken).permits c.service.location ((s.moves overtaken).record 0).owner &&
          ((s.moves overtaken).lastWord 0 c).all fun k => k.message.properties?.isNone) = true := by
    cases hs
    decide
  obtain ⟨hdone, hcached, hsome, hany⟩ := hall
  obtain ⟨p, hprop⟩ := Option.isSome_iff_exists.mp hsome
  obtain ⟨c, hc, hbad⟩ := List.any_eq_true.mp hany
  rw [Bool.and_eq_true] at hbad
  obtain ⟨hperm, hall⟩ := hbad
  refine ⟨s, c, hw, hown, hs, hn, hdone, hcached, Option.isSome_iff_ne_none.mp hsome, ?_⟩
  -- had the greeting come in time, the last word would carry properties
  by_contra hno
  obtain ⟨k, hlast, hands⟩ :=
    (updates_arrive_iff hw hown hs hn hdone hcached hprop hc hperm).mpr hno
  rw [hlast] at hall
  exact hands.1 (Option.isNone_iff_eq_none.mp hall)

/-- Nothing waits any more for a consumer that may see a record with properties, and the last that
it has heard is that there are none. -/
theorem update_lost_overtaken :
    ∃ s c, World.Fresh {} ∧ World.access {} = none ∧ start {} {} = .ok s ∧
      (s.moves overtaken).updates.waiting = [] ∧
      (s.moves overtaken).cache.record? "pid" = some 0 ∧
      ((s.moves overtaken).record 0).properties ≠ none ∧
      c ∈ ((s.moves overtaken).record 0).target.resolve (s.moves overtaken).directory ∧
      (s.moves overtaken).permits c.service.location ((s.moves overtaken).record 0).owner = true ∧
      ∃ k, (s.moves overtaken).lastWord 0 c = some k ∧ k.message.properties? = none := by
  obtain ⟨s, hs⟩ : ∃ s, start {} {} = .ok s := ⟨_, rfl⟩
  have hall : (s.moves overtaken).updates.waiting = [] ∧
      (s.moves overtaken).cache.record? "pid" = some 0 ∧
      ((s.moves overtaken).record 0).properties.isSome = true ∧
      (((s.moves overtaken).record 0).target.resolve (s.moves overtaken).directory).any (fun c =>
        (s.moves overtaken).permits c.service.location ((s.moves overtaken).record 0).owner &&
          ((s.moves overtaken).lastWord 0 c).any fun k => k.message.properties?.isNone) = true := by
    cases hs
    decide
  obtain ⟨hdone, hcached, hsome, hany⟩ := hall
  obtain ⟨c, hc, hbad⟩ := List.any_eq_true.mp hany
  rw [Bool.and_eq_true, Option.any_eq_true] at hbad
  obtain ⟨hperm, k, hlast, hnone⟩ := hbad
  exact ⟨s, c, ⟨rfl, rfl, Directory.wellKept_empty, Or.inl rfl⟩, rfl, hs, hdone, hcached,
    Option.isSome_iff_ne_none.mp hsome, hc, hperm, k, hlast, Option.isNone_iff_eq_none.mp hnone⟩

end Session
end Provisioning
