import Provisioning.Session.Step

/-! # What calls leave alone

Only the workers call consumers and listeners, run plugins and keep the statistics.  An
administrative call or a hook neither reads nor writes any of these, and of the waiting tasks it
knows no more than that it adds to them at the end.  All this is the margin of a session: a call
does the same whatever stands in the margin, and leaves it as it is (`step_beside`).

So two sessions that differ in their margins alone differ in them alone after any number of calls
and hooks, and what has to be compared of two runs is the work.
-/
namespace Provisioning

/-- What calls and hooks neither read nor write. -/
structure Margin where
  /-- Tasks that wait before all others. -/
  ahead : List Task
  replies : Service → Message → Reply
  plugins : Pipeline
  calls : List Call
  tally : Tally

namespace Session

variable (m : Margin) (s : Session)

/-- The session with another margin. -/
def beside : Session :=
  { s with
    directory := { s.directory with replies := m.replies }
    plugins := m.plugins
    calls := m.calls
    tally := m.tally
    updates := { s.updates with waiting := m.ahead ++ s.updates.waiting } }

/-- The result of a call, in another margin. -/
def resultBeside {α : Type} (p : α × Session) : α × Session := (p.1, p.2.beside m)

@[simp] theorem resultBeside_mk {α : Type} (a : α) :
    resultBeside m (a, s) = (a, s.beside m) := rfl

/-- The margin of a session, to which no tasks are added. -/
def margin : Margin := ⟨[], s.directory.replies, s.plugins, s.calls, s.tally⟩

@[simp] theorem beside_margin : s.beside s.margin = s := rfl

/-! ### What stands beside the margin -/

@[simp] theorem record_beside (h : Handle) : (s.beside m).record h = s.record h := rfl

@[simp] theorem isRunning_beside : (s.beside m).isRunning = s.isRunning := rfl

@[simp] theorem storage_beside : (s.beside m).storage = s.storage := rfl

theorem bindings_beside : (s.beside m).bindings = s.bindings := rfl

theorem cache_beside : (s.beside m).cache = s.cache := rfl

@[simp] theorem withStorage_beside (storage : Storage) :
    ({ s.beside m with storage } : Session) = Session.beside m { s with storage } := rfl

@[simp] theorem change_beside (h : Handle) (f : Record → Record) :
    (s.beside m).change h f = (s.change h f).beside m := rfl

@[simp] theorem assignBinding_beside (pid : String) (location : Option String) :
    (s.beside m).assignBinding pid location = (s.assignBinding pid location).beside m := rfl

@[simp] theorem announce_beside (c : Change) (h : Handle) :
    (s.beside m).announce c h = (s.announce c h).beside m := by
  by_cases hl : s.listeners.isEmpty = true
  · have hl' : (s.beside m).listeners.isEmpty = true := hl
    rw [announce, announce, if_pos hl, if_pos hl']
  · have hl' : ¬(s.beside m).listeners.isEmpty = true := hl
    rw [announce, announce, if_neg hl, if_neg hl']
    rfl

@[simp] theorem schedule_beside (t : Task) :
    (s.beside m).schedule t = (s.schedule t).beside m := by
  cases ha : s.updates.accepting <;> simp [schedule, WorkLine.push, beside, ha]

@[simp] theorem keepRoster_beside (r : Roster) :
    (s.beside m).keepRoster r = (s.keepRoster r).beside m := rfl

@[simp] theorem keepRecord_beside (r : Record) :
    (s.beside m).keepRecord r = ((s.keepRecord r).1, (s.keepRecord r).2.beside m) := rfl

@[simp] theorem revive_beside (pid home : String) (stored : Properties) :
    (s.beside m).revive pid home stored = s.revive pid home stored := rfl

/-! ### Look-ups -/

@[simp] theorem factory_beside (f : String) :
    (s.beside m).factory f = resultBeside m (s.factory f) := by
  cases hr : s.cache.roster? f with
  | some r => simp [factory, cache_beside, hr]
  | none =>
    cases hh : s.storage.firstHaving (Roster.idOf f) with
    | some home =>
      cases hl : Roster.load f home s.storage <;> simp [factory, cache_beside, hr, hh, hl]
    | none => cases hp : s.storage.primary <;> simp [factory, cache_beside, hr, hh, hp]

@[simp] theorem configuration_beside (pid : String) :
    (s.beside m).configuration pid = resultBeside m (s.configuration pid) := by
  cases hr : s.cache.record? pid with
  | some h => simp [configuration, cache_beside, hr]
  | none =>
    cases hh : s.storage.firstHaving pid with
    | none => simp [configuration, cache_beside, hr, hh]
    | some home =>
      cases hl : s.storage.load home pid with
      | error e => simp [configuration, cache_beside, hr, hh, hl]
      | ok stored =>
        cases hk : stored.contains Properties.pidKey with
        | false => simp [configuration, cache_beside, hr, hh, hl, hk]
        | true =>
          cases hv : s.revive pid home stored <;>
            simp [configuration, cache_beside, hr, hh, hl, hk, hv]

/-! ### Administrative calls -/

@[simp] theorem require_beside (pid : String) :
    (s.beside m).require pid = resultBeside m (s.require pid) := by
  rcases hc : s.configuration pid with ⟨_ | _ | h, s'⟩
  · simp [require, hc]
  · simp [require, hc]
  · cases hd : (s'.record h).deleted <;> simp [require, hc, hd]

@[simp] theorem getOrCreate_beside (pid : String) (location : Option String) :
    (s.beside m).getOrCreate pid location = resultBeside m (s.getOrCreate pid location) := by
  cases hrun : s.isRunning with
  | false => simp [getOrCreate, hrun]
  | true =>
    cases hp : checkPid pid with
    | error e => simp [getOrCreate, hrun, hp]
    | ok _ =>
      rcases hc : s.configuration pid with ⟨_ | _ | h, s'⟩
      · simp [getOrCreate, hrun, hp, hc]
      · cases hh : s'.storage.primary with
        | error e => simp [getOrCreate, hrun, hp, hc, hh]
        | ok home =>
          cases hs : s'.storage.store home pid (Record.persisted
              (Record.restore { pid, factoryPid := none, home, staticLocation := location }
                (s'.bindings.get? pid))) with
          | error e => simp [getOrCreate, hrun, hp, hc, hh, hs, bindings_beside]
          | ok storage =>
            simp only [getOrCreate, hrun, hp, hc, hh, hs, isRunning_beside,
              configuration_beside, resultBeside_mk, storage_beside, bindings_beside]
            rfl
      · simp [getOrCreate, hrun, hp, hc]

@[simp] theorem getExisting_beside (pid : String) :
    (s.beside m).getExisting pid = resultBeside m (s.getExisting pid) := by
  cases hrun : s.isRunning with
  | false => simp [getExisting, hrun]
  | true => rcases hc : s.configuration pid with ⟨_ | _, s'⟩ <;> simp [getExisting, hrun, hc]

@[simp] theorem mintMember_beside (f : String) (location : Option String)
    (names : List String) :
    (s.beside m).mintMember f location names =
      resultBeside m (s.mintMember f location names) := by
  induction names generalizing s with
  | nil => rfl
  | cons pid rest ih =>
    rcases hc : s.configuration pid with ⟨_ | _ | h, s'⟩
    · simp [mintMember, hc]
    · cases hp : s'.storage.primary <;> simp [mintMember, hc, hp]
    · simp [mintMember, hc, ih]

@[simp] theorem createMember_beside (f : String) (location : Option String)
    (names : List String) :
    (s.beside m).createMember f location names =
      resultBeside m (s.createMember f location names) := by
  cases hrun : s.isRunning with
  | false => simp [createMember, hrun]
  | true =>
    cases hp : checkPid f with
    | error e => simp [createMember, hrun, hp]
    | ok _ => rcases hf : s.factory f with ⟨_ | _, s'⟩ <;> simp [createMember, hrun, hp, hf]

@[simp] theorem members_beside (f : String) :
    (s.beside m).members f = resultBeside m (s.members f) := by
  cases hrun : s.isRunning with
  | false => simp [members, hrun]
  | true => rcases hf : s.factory f with ⟨_ | _, s'⟩ <;> simp [members, hrun, hf]

@[simp] theorem list_beside (filter : Option String) :
    (s.beside m).list filter = s.list filter := rfl

@[simp] theorem join_beside (h : Handle) :
    (s.beside m).join h = resultBeside m (s.join h) := by
  cases hmember : (s.record h).factoryPid with
  | none => simp [join, hmember]
  | some f =>
    rcases hf : s.factory f with ⟨_ | roster, s'⟩
    · simp [join, hmember, hf]
    · cases hc : roster.contains (s.record h).pid with
      | true => simp [join, hmember, hf, hc]
      | false =>
        cases hs : (roster.add (s.record h).pid).store s'.storage <;>
          simp [join, hmember, hf, hc, hs]

@[simp] theorem commit_beside (h : Handle) (p : Properties) :
    (s.beside m).commit h p = (s.commit h p).beside m := by
  simp [commit]

@[simp] theorem update_beside (pid : String) (p : Properties) :
    (s.beside m).update pid p = resultBeside m (s.update pid p) := by
  cases hrun : s.isRunning with
  | false => simp [update, hrun]
  | true =>
    rcases hr : s.require pid with ⟨_ | h, s₁⟩
    · simp [update, hrun, hr]
    · rcases hj : s₁.join h with ⟨_ | _, s₂⟩
      · simp [update, hrun, hr, hj]
      · cases hs : s₂.storage.store (s₂.record h).home pid ((s₂.record h).persistedWith p) <;>
          simp [update, hrun, hr, hj, hs]

@[simp] theorem discard_beside (h : Handle) (pid : String) :
    (s.beside m).discard h pid = (s.discard h pid).beside m := by
  -- the record and the cache are changed first, and then what remains is told
  have htold : ∀ s' : Session, (((s'.beside m).assignBinding pid none).announce .deleted h).schedule
      (.retract h ((((s'.beside m).assignBinding pid none).announce .deleted h).record h).owner) =
      (((s'.assignBinding pid none).announce .deleted h).schedule
        (.retract h (((s'.assignBinding pid none).announce .deleted h).record h).owner)).beside m :=
    fun s' => by simp
  exact htold { s.change h fun r => { r with deleted := true } with cache := s.cache.drop pid }

@[simp] theorem delete_beside (pid : String) :
    (s.beside m).delete pid = resultBeside m (s.delete pid) := by
  cases hrun : s.isRunning with
  | false => simp [delete, hrun]
  | true =>
    rcases hr : s.require pid with ⟨_ | h, s₁⟩
    · simp [delete, hrun, hr]
    · cases hs : s₁.storage.delete (s₁.record h).home pid <;> simp [delete, hrun, hr, hs]

@[simp] theorem resettle_beside (h : Handle) (pid : String) (location : Option String) :
    (s.beside m).resettle h pid location = (s.resettle h pid location).beside m := by
  by_cases hsame : (s.record h).owner = location
  · simp [resettle, hsame]
  · cases ho : (s.record h).owner.isSome <;> simp [resettle, hsame, ho]

@[simp] theorem setLocation_beside (pid : String) (location : Option String) :
    (s.beside m).setLocation pid location = resultBeside m (s.setLocation pid location) := by
  have hstore : ∀ (s' : Session) h, (s'.beside m).storeLocation h pid location =
    s'.storeLocation h pid location := fun _ _ => rfl
  cases hrun : s.isRunning with
  | false => simp [setLocation, hrun]
  | true =>
    rcases hr : s.require pid with ⟨_ | h, s₁⟩
    · simp [setLocation, hrun, hr]
    · cases hs : s₁.storeLocation h pid location <;> simp [setLocation, hrun, hr, hstore, hs]

@[simp] theorem getLocation_beside (pid : String) :
    (s.beside m).getLocation pid = resultBeside m (s.getLocation pid) := by
  cases hrun : s.isRunning with
  | false => simp [getLocation, hrun]
  | true => rcases hr : s.require pid with ⟨_ | _, s'⟩ <;> simp [getLocation, hrun, hr]

/-! ### Hooks -/

@[simp] theorem attachSingle_beside (c : Consumer) (pid : String) :
    (s.beside m).attachSingle c pid = (s.attachSingle c pid).beside m := by
  rcases hc : s.configuration pid with ⟨_ | _ | h, s'⟩ <;> simp [attachSingle, hc]

@[simp] theorem muster_beside (f : String) (roll : MusterRoll) (pid : String) :
    (s.beside m).muster f roll pid = resultBeside m (s.muster f roll pid) := by
  rcases hc : s.configuration pid with ⟨_ | _ | h, s'⟩
  · simp [muster, hc]
  · simp [muster, hc]
  · by_cases hf : (s'.record h).factoryPid = some f
    · cases hn : (s'.record h).isNew <;> simp [muster, hc, hf, hn]
    · simp [muster, hc, hf]

@[simp] theorem musterAll_beside (f : String) (pids : List String) (roll : MusterRoll) :
    musterAll f pids roll (s.beside m) = resultBeside m (musterAll f pids roll s) := by
  induction pids generalizing s roll with
  | nil => rfl
  | cons pid rest ih => simp [musterAll, resultBeside, ih]

@[simp] theorem prune_beside (before after : Roster) :
    (s.beside m).prune before after = (s.prune before after).beside m := by
  by_cases hl : after.members.length < before.members.length
  · cases hs : after.store (s.keepRoster after).storage <;> simp [prune, hl, hs]
  · simp [prune, hl]

@[simp] theorem attachMembers_beside (c : Consumer) (f : String) :
    (s.beside m).attachMembers c f = (s.attachMembers c f).beside m := by
  rcases hf : s.factory f with ⟨_ | roster, s'⟩
  · simp [attachMembers, hf]
  · simp [attachMembers, hf, resultBeside]

@[simp] theorem attachTo_beside (c : Consumer) (identity : String) :
    (s.beside m).attachTo c identity = (s.attachTo c identity).beside m := by
  cases hk : c.kind <;> simp [attachTo, hk]

/-- A loop stays beside the margin if each of its rounds does. -/
theorem foldl_beside {α : Type} {f : Session → α → Session}
    (hf : ∀ (s : Session) a, f (s.beside m) a = (f s a).beside m) (l : List α) :
    l.foldl f (s.beside m) = (l.foldl f s).beside m := by
  induction l generalizing s with
  | nil => rfl
  | cons a rest ih => rw [List.foldl_cons, List.foldl_cons, hf, ih]

@[simp] theorem consumerRegistered_beside (c : Consumer) :
    (s.beside m).consumerRegistered c = (s.consumerRegistered c).beside m := by
  cases hrun : s.isRunning with
  | false => simp [consumerRegistered, hrun]
  | true =>
    simp only [consumerRegistered, hrun, isRunning_beside, if_true]
    exact s.foldl_beside m (fun s' pid => s'.attachTo_beside m c pid) c.service.pids

@[simp] theorem consumerWithdrawn_beside (service : Nat) :
    (s.beside m).consumerWithdrawn service = (s.consumerWithdrawn service).beside m :=
  s.foldl_beside m (fun _ _ => rfl) s.cache.records.values

@[simp] theorem listenerRegistered_beside (l : Service) :
    (s.beside m).listenerRegistered l = (s.listenerRegistered l).beside m := by
  have hlisteners : (s.beside m).listeners = s.listeners := rfl
  cases hl : s.listeners.any fun k => k.id == l.id <;>
    simp [listenerRegistered, hlisteners, hl]
  rfl

@[simp] theorem listenerWithdrawn_beside (service : Nat) :
    (s.beside m).listenerWithdrawn service = (s.listenerWithdrawn service).beside m := rfl

@[simp] theorem releaseFrom_beside (location : String) (h : Handle) :
    (s.beside m).releaseFrom location h = (s.releaseFrom location h).beside m := by
  cases hb : (s.record h).isBoundTo location <;> simp [releaseFrom, hb]

@[simp] theorem locationUninstalled_beside (location : String) :
    (s.beside m).locationUninstalled location = (s.locationUninstalled location).beside m := by
  have hunbound : (s.bindings.boundTo location).foldl (fun s' pid => s'.assignBinding pid none)
      (s.beside m) = Session.beside m
        ((s.bindings.boundTo location).foldl (fun s' pid => s'.assignBinding pid none) s) :=
    s.foldl_beside m (fun _ _ => rfl) _
  unfold locationUninstalled
  rw [bindings_beside, hunbound]
  exact foldl_beside m _ (fun s' h => s'.releaseFrom_beside m location h) _

theorem submit_beside (t : Task) :
    (s.beside m).submit t = resultBeside m (s.submit t) := by
  simp [submit]

end Session

/-! ### Steps -/

/-- Whether an action is a call or a hook: it neither changes the plugins nor the world around,
nor is it work. -/
def Action.isCall : Action → Bool
  | .addPlugin .. | .removePlugin _ | .around _ | .runUpdate | .runNotice | .shutdown => false
  | _ => true

namespace Session

/-- **Calls and hooks leave the margin alone**, and it has no part in what they answer. -/
theorem step_beside (m : Margin) (s : Session) {a : Action} (ha : a.isCall = true) :
    (s.beside m).step a = resultBeside m (s.step a) := by
  cases a with
  | addPlugin | removePlugin | around | runUpdate | runNotice | shutdown => cases ha
  | submit t => simp [step, submit_beside, resultBeside]
  | _ => simp [step, answering, resultBeside]

/-- A call or a hook adds the same tasks whatever waits, and the statistics do not matter. -/
theorem step_waiting (s : Session) {a : Action} (ha : a.isCall = true) :
    ∃ new, (s.step a).2.updates.waiting = s.updates.waiting ++ new ∧
      (s.step a).2.tally = s.tally ∧ ∀ waiting tally,
        ({ s with updates := { s.updates with waiting }, tally } : Session).step a =
          ((s.step a).1, { (s.step a).2 with
            updates := { (s.step a).2.updates with waiting := waiting ++ new }, tally }) := by
  -- the session without what waits, and all that waits ahead of it
  have hstep : ∀ waiting tally,
      ({ s with updates := { s.updates with waiting }, tally } : Session).step a =
        resultBeside { s.margin with ahead := waiting, tally }
          (({ s with updates := { s.updates with waiting := [] } } : Session).step a) := by
    intro waiting tally
    rw [← step_beside _ _ ha]
    simp only [beside, margin, List.append_nil]
  have hself := hstep s.updates.waiting s.tally
  refine ⟨(({ s with updates := { s.updates with waiting := [] } } : Session).step a
    ).2.updates.waiting, ?_, ?_, fun waiting tally => ?_⟩
  · rw [hself]
    rfl
  · rw [hself]
    rfl
  · rw [hstep waiting tally, hself]
    rfl

end Session
end Provisioning
