import Provisioning.Proofs.Moves

/-! # Consumers see the latest configuration

When all work is done after every move, consumers and records agree after every move.  A consumer
that may see a record with properties was handed just these, and every other consumer of a record
heard last, if it heard anything, that there are none.

Promises alone give this but for greetings that come too late.  There are none of these here: a
greeting that was captured of a record without properties runs before the record has any.
-/
namespace Provisioning
namespace Session

variable (s : Session)

/-- A session after a move and all work that waits then. -/
def turn (m : Move) : Session := (s.move m).drainUpdates

/-- A session after some moves with all work done after each. -/
def turns (ms : List Move) : Session := ms.foldl turn s

/-- No greeting that waits has missed the first properties of a record. -/
def Candid : Prop :=
  ∀ c pid h g, .attach c pid (some ⟨h, none, g⟩) ∈ s.view.waiting →
    (s.view.record h).properties = none

variable {s}

/-! ### No greeting is late -/

theorem Candid.not_late {H : History} (hc : s.Candid) (hv : s.view.Orderly H) (h : Handle)
    (c : Consumer) : ¬s.view.LateGreeting h c := by
  rintro ⟨pid, g, rest, hw, -, -, -, hmark⟩
  -- whoever has a mark has it for properties, and records with properties keep some
  obtain ⟨w, hw'⟩ := Option.ne_none_iff_exists'.mp hmark
  obtain ⟨hle, -, hh⟩ := hv.marked h _ w hw'
  exact hv.lasting h w hle hh (hc c pid h g (hw ▸ List.mem_cons_self))

/-- What is queued when nothing waited shows records as they stand. -/
theorem step_candid (hf : s.view.Filed) (hw : s.view.waiting = []) {a : Action}
    (ha : a.isQuiet = true) : (s.step a).2.Candid := by
  intro c pid h g ht
  have hfront := (step_deal hf a).front hf ha
  rcases hfront.tasks _ ht with hold | ⟨hshows, -⟩
  · rw [hw] at hold
    exact absurd hold List.not_mem_nil
  · obtain ⟨-, he⟩ := hshows _ List.mem_cons_self
    exact (congrArg Snapshot.properties he).symm

theorem move_candid (hf : s.view.Filed) (hw : s.view.waiting = []) (m : Move) :
    (s.move m).Candid := by
  have haround : ∀ a hook, hook.isQuiet = true →
      (s.run [.around a, hook]).Candid := by
    intro a hook hq
    exact step_candid (s := (s.step (.around a)).2) (run_filed hf [.around a]) hw hq
  cases m with
  | call action administrative =>
    refine step_candid hf hw ?_
    cases action <;> first | rfl | cases administrative
  | register kind location pids ranking => exact haround _ _ rfl
  | withdraw id => exact haround _ _ rfl
  | uninstall location => exact haround _ _ rfl
  | plug rank target plugin => exact step_candid hf hw rfl
  | unplug id => exact step_candid hf hw rfl
  | work =>
    intro c pid h g ht
    have hsame : s.move .work = s := s.runUpdate_idle hw
    rw [hsame, hw] at ht
    exact absurd ht List.not_mem_nil

/-! ### Doing all work -/

theorem Candid.runUpdate (hc : s.Candid) : s.runUpdate.Candid := by
  obtain ⟨hw, hp⟩ := s.runUpdate_waiting
  intro c pid h g ht
  rw [hw] at ht
  rw [hp]
  exact hc c pid h g (List.mem_of_mem_tail ht)

theorem Kept.runUpdate (hs : s.Kept fun _ _ _ => False) (hc : s.Candid) :
    s.runUpdate.Kept fun _ _ _ => False := by
  obtain ⟨H, hp⟩ := hs.pledge
  refine hs.move (m := .work) (fun _ _ he => by cases he) (fun _ _ _ hl => hl) fun h c _ hl => ?_
  exact absurd hl (hc.not_late hp.toOrderly h c)

theorem Kept.drain (hs : s.Kept fun _ _ _ => False) (hc : s.Candid) :
    s.drainUpdates.Kept (fun _ _ _ => False) ∧ s.drainUpdates.view.waiting = [] := by
  have hn : ∀ (n : Nat) (s : Session), s.Kept (fun _ _ _ => False) → s.Candid →
      s.view.waiting.length = n →
        (runUpdates n s).Kept (fun _ _ _ => False) ∧ (runUpdates n s).view.waiting = [] := by
    intro n
    induction n with
    | zero => exact fun s hs _ hl => ⟨hs, List.eq_nil_of_length_eq_zero hl⟩
    | succ n ih =>
      intro s hs hc hl
      refine ih s.runUpdate (hs.runUpdate hc) hc.runUpdate ?_
      rw [s.runUpdate_waiting.1, List.length_tail, hl]
      rfl
  exact hn _ s hs hc rfl

/-- **Every turn ends with all promises kept** and nothing left to do. -/
theorem turns_kept (hs : s.Kept fun _ _ _ => False) (hw : s.view.waiting = []) (ms : List Move) :
    (s.turns ms).Kept (fun _ _ _ => False) ∧ (s.turns ms).view.waiting = [] := by
  induction ms generalizing s with
  | nil => exact ⟨hs, hw⟩
  | cons m rest ih =>
    obtain ⟨H, hp⟩ := hs.pledge
    have hcandid := move_candid hp.filed hw m
    -- nothing waits at the beginning of a turn, and so nobody is still to be struck off
    have hclear : s.Clear m := by
      rintro action administrative - pid - f ⟨h, owner, ht, -⟩
      rw [hw] at ht
      exact absurd ht List.not_mem_nil
    have hmove : (s.move m).Kept fun _ _ _ => False := by
      refine hs.move hclear (fun _ _ _ hl => hl) fun h c he hl => ?_
      obtain ⟨pid, g, tasks, hwait, -⟩ := hl
      rw [hw] at hwait
      cases hwait
    obtain ⟨hkept, hdone⟩ := hmove.drain hcandid
    exact ih hkept hdone

/-- **Convergence.**  Over one fresh backend, with all work done after every move: a live consumer
that a cached record is for was last handed exactly the properties of the record, if it may see
the record and there are some; otherwise the last callback to it on behalf of the record, if there
was any, carried none. -/
theorem deliveries_converge {w : World} (hw : w.Fresh) (hown : w.Courteous) {settings : Settings}
    {s : Session} (hs : start w settings = .ok s) (ms : List Move) {pid : String} {h : Handle}
    (hcached : (s.turns ms).cache.record? pid = some h) {c : Consumer}
    (hc : c ∈ ((s.turns ms).record h).target.resolve (s.turns ms).directory) :
    ((s.turns ms).record h).deleted = false ∧
    (∀ p, ((s.turns ms).record h).properties = some p →
      (s.turns ms).permits c.service.location ((s.turns ms).record h).owner = true →
        ∃ k, (s.turns ms).lastWord h c = some k ∧ k.Hands p) ∧
    (((s.turns ms).record h).properties = none ∨
      (s.turns ms).permits c.service.location ((s.turns ms).record h).owner = false →
        ∀ k, (s.turns ms).lastWord h c = some k → k.message.properties? = none) := by
  have hwaiting : s.view.waiting = [] := by rw [start_view hs]
  obtain ⟨hkept, hdone⟩ := turns_kept (start_kept hw hown hs) hwaiting ms
  obtain ⟨H, hp⟩ := hkept.pledge
  have hk : (s.turns ms).view.Known h := hp.filed.known hcached
  refine ⟨hp.toOrderly.undeleted hk, fun p hprop hperm => ?_, fun hnot k hlast => ?_⟩
  · exact (hp.served hdone hk hc hprop hperm).resolve_right id
  · exact hp.unserved hdone hk hc hnot k hlast

/-- A record that two consumers are for gets properties, and moves from the location of one to
that of the other. -/
def relocated : List Move :=
  [.register .single "here" ["pid"] 0, .register .single "there" ["pid"] 0,
    .call (.getOrCreate "pid" none) rfl, .call (.update "pid" .empty) rfl,
    .call (.setLocation "pid" (some "there")) rfl]

/-- The consumer that gains the record was handed what it holds, and the one that lost it has
heard so. -/
theorem deliveries_converge_relocated :
    ∃ s p c c', World.Fresh {} ∧ World.Courteous {} ∧ start {} {} = .ok s ∧
      (s.turns relocated).cache.record? "pid" = some 0 ∧ c ≠ c' ∧
      (∃ k, (s.turns relocated).lastWord 0 c = some k ∧ k.Hands p) ∧
      (s.turns relocated).lastWord 0 c' ≠ none ∧
      ∀ k, (s.turns relocated).lastWord 0 c' = some k → k.message.properties? = none := by
  have hw : World.Fresh {} := ⟨rfl, rfl, Directory.wellKept_empty, Or.inl rfl⟩
  have hown : World.Courteous {} := by
    intro check hc
    cases hc
  obtain ⟨s, hs⟩ : ∃ s, start {} {} = .ok s := ⟨_, rfl⟩
  have hall : (s.turns relocated).cache.record? "pid" = some 0 ∧
      ((s.turns relocated).record 0).properties.isSome = true ∧
      (((s.turns relocated).record 0).target.resolve (s.turns relocated).directory).any (fun c =>
        (s.turns relocated).permits c.service.location ((s.turns relocated).record 0).owner) =
          true ∧
      (((s.turns relocated).record 0).target.resolve (s.turns relocated).directory).any (fun c =>
        !(s.turns relocated).permits c.service.location ((s.turns relocated).record 0).owner &&
          ((s.turns relocated).lastWord 0 c).isSome) = true := by
    cases hs
    decide
  obtain ⟨hcached, hp, hgains, hloses⟩ := hall
  obtain ⟨p, hprop⟩ := Option.isSome_iff_exists.mp hp
  obtain ⟨c, hc, hperm⟩ := List.any_eq_true.mp hgains
  obtain ⟨c', hc', hlost⟩ := List.any_eq_true.mp hloses
  rw [Bool.and_eq_true, Bool.not_eq_true'] at hlost
  refine ⟨s, p, c, c', hw, hown, hs, hcached, ?_, ?_, ?_, ?_⟩
  · rintro rfl
    rw [hperm] at hlost
    cases hlost.1
  · exact (deliveries_converge hw hown hs relocated hcached hc).2.1 p hprop hperm
  · exact Option.isSome_iff_ne_none.mp hlost.2
  · exact (deliveries_converge hw hown hs relocated hcached hc').2.2 (Or.inr hlost.1)

end Session
end Provisioning
