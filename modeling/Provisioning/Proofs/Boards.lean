import Provisioning.Proofs.Writing

/-! # The notice board

Listeners are told of changes by notices, which wait in a line of their own.  The board of a session
is this line together with those who are told, and with what they were told so far.  An operation
either leaves the board as it is or puts notices up, for the listeners of the moment; only the
notice worker takes them down.  So each operation is described by the notices that it puts up, once.

Of what the update worker does, only the binding of a record that nobody owns puts a notice up.
`Visits` follows the records that a task claims in this way.
-/
namespace Provisioning

/-- What a session has for its listeners. -/
structure Board where
  notices : WorkLine (Notice × List Service)
  listeners : List Service
  notifications : List Notification

namespace Board

variable (b : Board)

/-- Puts up a notice for the listeners, if there are any. -/
def post (n : Notice) : Board :=
  if b.listeners.isEmpty then b else { b with notices := b.notices.push (n, b.listeners) }

/-- Puts up several notices in order. -/
def postAll (news : List Notice) : Board := news.foldl post b

@[simp] theorem postAll_nil : b.postAll [] = b := rfl

theorem postAll_append (news news' : List Notice) :
    b.postAll (news ++ news') = (b.postAll news).postAll news' := List.foldl_append

/-- Notices go to the end of a line that is open, and to those who are told at that moment. -/
theorem postAll_eq (news : List Notice) :
    b.postAll news = { b with notices := { b.notices with
      waiting := b.notices.waiting ++
        if b.notices.accepting && !b.listeners.isEmpty then news.map fun n => (n, b.listeners)
        else [] } } := by
  induction news generalizing b with
  | nil => simp
  | cons n rest ih =>
    rw [postAll, List.foldl_cons, ← postAll, ih]
    obtain ⟨⟨waiting, accepting⟩, listeners, told⟩ := b
    cases accepting <;> cases hl : listeners.isEmpty <;> simp [post, WorkLine.push, hl]

end Board

/-- A part of a list without repetitions is told from the rest by its members. -/
theorem filter_of_sublist {α : Type} {l l' : List α} (h : l.Sublist l') (hd : l'.Nodup)
    {p : α → Bool} (hp : ∀ a ∈ l', (a ∈ l ↔ p a = true)) : l = l'.filter p := by
  induction h with
  | slnil => rfl
  | @cons l l' a hsub ih =>
    obtain ⟨hn, hd'⟩ := List.nodup_cons.mp hd
    have ha : ¬p a = true := fun hx => hn (hsub.subset ((hp a List.mem_cons_self).mpr hx))
    rw [List.filter_cons_of_neg ha]
    exact ih hd' fun b hb => hp b (List.mem_cons_of_mem a hb)
  | @cons_cons l l' a hsub ih =>
    obtain ⟨hn, hd'⟩ := List.nodup_cons.mp hd
    rw [List.filter_cons_of_pos ((hp a List.mem_cons_self).mp List.mem_cons_self)]
    congr 1
    refine ih hd' fun b hb => ?_
    rw [← hp b (List.mem_cons_of_mem a hb), List.mem_cons]
    -- the head is not among the others
    have hne : b ≠ a := fun he => hn (he ▸ hb)
    exact ⟨Or.inr, fun hx => hx.resolve_left hne⟩

/-- Nobody owns a record that was released. -/
theorem Record.owner_release {r : Record} {location : String} (h : r.isBoundTo location = true) :
    (r.release location).owner = none := by
  rw [r.release_eq, if_pos h]
  unfold isBoundTo at h
  rw [Bool.and_eq_true, Option.isNone_iff_eq_none] at h
  rw [owner, h.1]
  rfl

namespace Session

variable (s : Session)

/-- The board of a session. -/
def board : Board := ⟨s.notices, s.listeners, s.notifications⟩

/-- The notice of a change of a record. -/
def noticeOf (c : Change) (h : Handle) : Notice := ⟨c, (s.record h).pid, (s.record h).factoryPid⟩

/-! ### The small operations -/

@[simp] theorem board_change (h : Handle) (f : Record → Record) :
    (s.change h f).board = s.board := rfl

@[simp] theorem board_schedule (t : Task) : (s.schedule t).board = s.board := rfl

@[simp] theorem board_announce (c : Change) (h : Handle) :
    (s.announce c h).board = s.board.post (s.noticeOf c h) := by
  unfold announce Board.post
  by_cases hl : s.listeners.isEmpty = true
  · rw [if_pos hl, if_pos (show s.board.listeners.isEmpty = true from hl)]
  · rw [if_neg hl, if_neg (show ¬s.board.listeners.isEmpty = true from hl)]
    rfl

/-- A loop leaves the board as it is, if each of its rounds does. -/
theorem board_foldl {α : Type} {f : Session → α → Session}
    (hround : ∀ s a, (f s a).board = s.board) (l : List α) : (l.foldl f s).board = s.board := by
  induction l generalizing s with
  | nil => rfl
  | cons a rest ih => exact (ih (f s a)).trans (hround s a)

/-! ### Look-ups -/

@[simp] theorem board_factory (f : String) : (s.factory f).2.board = s.board := by
  unfold factory
  split
  · rfl
  · split
    · split <;> rfl
    · split <;> rfl

@[simp] theorem board_configuration (pid : String) : (s.configuration pid).2.board = s.board := by
  unfold configuration
  split
  · rfl
  · split
    · rfl
    · split
      · rfl
      · split
        · rfl
        · split <;> rfl

@[simp] theorem board_require (pid : String) : (s.require pid).2.board = s.board := by
  rw [(s.require_spec pid).1, board_configuration]

/-! ### Calls -/

theorem board_getOrCreate (pid : String) (location : Option String) :
    (s.getOrCreate pid location).2.board = s.board := by
  have hcourse := s.creating pid location
  generalize s.getOrCreate pid location = result at hcourse ⊢
  cases hcourse with
  | refused looked =>
    rcases looked with rfl | rfl
    · rfl
    · exact s.board_configuration pid
  | found => exact s.board_configuration pid
  | @made s₁ home r storage absent =>
    have hlooked := s.board_configuration pid
    rw [absent] at hlooked
    exact hlooked

theorem Minting.board {f : String} {location : Option String} {s : Session} {names : List String}
    {result : Except AdminError (Option Handle) × Session}
    (hm : Minting f location s names result) : result.2.board = s.board := by
  induction hm with
  | exhausted => rfl
  | @refused s pid => exact s.board_configuration pid
  | @taken s pid _ _ _ ih => exact ih.trans (s.board_configuration pid)
  | @made s s₁ pid home rest r absent =>
    have hlooked := s.board_configuration pid
    rw [absent] at hlooked
    exact hlooked

theorem board_createMember (f : String) (location : Option String) (names : List String) :
    (s.createMember f location names).2.board = s.board := by
  have hcourse := s.recruiting f location names
  generalize s.createMember f location names = result at hcourse ⊢
  cases hcourse with
  | refused looked =>
    rcases looked with rfl | rfl
    · rfl
    · exact s.board_factory f
  | minted minting => exact minting.board.trans (s.board_factory f)

theorem board_getExisting (pid : String) : (s.getExisting pid).2.board = s.board := by
  rcases s.getExisting_looks pid with he | he
  · rw [he]
  · rw [he, board_configuration]

theorem board_members (f : String) : (s.members f).2.board = s.board := by
  rcases s.members_looks f with he | he
  · rw [he]
  · rw [he, board_factory]

theorem board_getLocation (pid : String) : (s.getLocation pid).2.board = s.board := by
  rcases s.getLocation_looks pid with he | he
  · rw [he]
  · rw [he, board_configuration]

@[simp] theorem board_join (h : Handle) : (s.join h).2.board = s.board := by
  have hcourse := s.joining h
  generalize s.join h = result at hcourse ⊢
  cases hcourse with
  | single => rfl
  | refused => exact s.board_factory _
  | @listed f _ _ _ found | @joined f _ _ _ _ found =>
    have hlooked := s.board_factory f
    rw [found] at hlooked
    exact hlooked

theorem records_factory (f : String) : (s.factory f).2.records = s.records := by
  rcases s.factory_keeps f with he | ⟨r, he⟩
  · rw [he]
  · rw [he]
    rfl

theorem records_join (h : Handle) : (s.join h).2.records = s.records := by
  have hcourse := s.joining h
  generalize s.join h = result at hcourse ⊢
  cases hcourse with
  | single => rfl
  | refused => exact s.records_factory _
  | @listed f _ _ _ found | @joined f _ _ _ _ found =>
    have hlooked := s.records_factory f
    rw [found] at hlooked
    exact hlooked

/-- A change that leaves the pids of records alone gives no other notices. -/
theorem noticeOf_change {f : Record → Record} (hpid : ∀ r, (f r).pid = r.pid)
    (hfactory : ∀ r, (f r).factoryPid = r.factoryPid) (h : Handle) (c : Change) (i : Handle) :
    (s.change h f).noticeOf c i = s.noticeOf c i := by
  have hp : ((s.change h f).record i).pid = (s.record i).pid :=
    s.view.record_change_of_eq hpid h i
  have hf : ((s.change h f).record i).factoryPid = (s.record i).factoryPid :=
    s.view.record_change_of_eq hfactory h i
  rw [noticeOf, noticeOf, hp, hf]

theorem board_commit (h : Handle) (p : Properties) :
    (s.commit h p).board = s.board.post (s.noticeOf .updated h) := by
  have hsame := s.noticeOf_change (f := fun r => r.commit p) (fun _ => rfl) (fun _ => rfl) h
    .updated h
  unfold commit
  rw [board_schedule, board_announce, board_change, hsame]

theorem board_discard (h : Handle) (pid : String) :
    (s.discard h pid).board = s.board.post (s.noticeOf .deleted h) := by
  have hsame := s.noticeOf_change (f := fun r => { r with deleted := true }) (fun _ => rfl)
    (fun _ => rfl) h .deleted h
  rw [← hsame]
  unfold discard
  rw [board_schedule, board_announce]
  rfl

theorem board_resettle (h : Handle) (pid : String) (location : Option String) :
    (s.resettle h pid location).board =
      if (s.record h).owner = location then s.board
      else s.board.post (s.noticeOf .relocated h) := by
  have hsame : ((s.change h fun r => r.relocate location).assignBinding pid none).noticeOf
      .relocated h = s.noticeOf .relocated h :=
    s.noticeOf_change (f := fun r => r.relocate location) (fun _ => rfl) (fun _ => rfl) h _ h
  unfold resettle
  dsimp only
  split
  · rfl
  · split
    · rw [board_schedule, board_announce, hsame]
      rfl
    · rw [board_announce, hsame]
      rfl

/-- An update is told of, and of one that is refused nothing is. -/
theorem board_update (pid : String) (p : Properties) :
    (∃ e, (s.update pid p).1 = .error e ∧ (s.update pid p).2.board = s.board) ∨
      ∃ h g, (s.require pid).1 = .ok h ∧ (s.update pid p).1 = .ok g ∧
        (s.update pid p).2.board = s.board.post ((s.require pid).2.noticeOf .updated h) := by
  have hlooked := s.board_require pid
  have hcourse := s.updating pid p
  generalize s.update pid p = result at hcourse ⊢
  cases hcourse with
  | refused looked =>
    rcases looked with rfl | rfl
    · exact Or.inl ⟨_, rfl, rfl⟩
    · exact Or.inl ⟨_, rfl, hlooked⟩
  | @unjoined h s₁ s₂ e required unjoined | @unstored h s₁ s₂ e required unjoined =>
    rw [required] at hlooked
    have hjoined := s₁.board_join h
    rw [unjoined] at hjoined
    exact Or.inl ⟨_, rfl, hjoined.trans hlooked⟩
  | @updated h s₁ s₂ storage required joined =>
    rw [required] at hlooked ⊢
    have hjoined := s₁.board_join h
    have hrecords := s₁.records_join h
    rw [joined] at hjoined hrecords
    have hnotice : s₂.noticeOf .updated h = s₁.noticeOf .updated h := by
      unfold noticeOf record World.record
      rw [hrecords]
    refine Or.inr ⟨h, _, rfl, rfl, ?_⟩
    rw [board_commit, ← hnotice, ← hlooked, ← hjoined]
    rfl

/-- A deletion is told of, and of one that is refused nothing is. -/
theorem board_delete (pid : String) :
    (∃ e, (s.delete pid).1 = .error e ∧ (s.delete pid).2.board = s.board) ∨
      ∃ h, (s.require pid).1 = .ok h ∧ (s.delete pid).1 = .ok () ∧
        (s.delete pid).2.board = s.board.post ((s.require pid).2.noticeOf .deleted h) := by
  have hlooked := s.board_require pid
  have hcourse := s.deleting pid
  generalize s.delete pid = result at hcourse ⊢
  cases hcourse with
  | refused looked =>
    rcases looked with rfl | rfl
    · exact Or.inl ⟨_, rfl, rfl⟩
    · exact Or.inl ⟨_, rfl, hlooked⟩
  | @deleted h s₁ storage running required =>
    rw [required] at hlooked ⊢
    refine Or.inr ⟨h, rfl, rfl, ?_⟩
    rw [board_discard, ← hlooked]
    rfl

/-- Of a location that is set it is told, if the record belonged to another one. -/
theorem board_setLocation (pid : String) (location : Option String) :
    (∃ e, (s.setLocation pid location).1 = .error e ∧
      (s.setLocation pid location).2.board = s.board) ∨
      ∃ h, (s.require pid).1 = .ok h ∧ (s.setLocation pid location).1 = .ok () ∧
        (s.setLocation pid location).2.board =
          if ((s.require pid).2.record h).owner = location then s.board
          else s.board.post ((s.require pid).2.noticeOf .relocated h) := by
  have hlooked := s.board_require pid
  have hcourse := s.settling pid location
  generalize s.setLocation pid location = result at hcourse ⊢
  cases hcourse with
  | refused looked =>
    rcases looked with rfl | rfl
    · exact Or.inl ⟨_, rfl, rfl⟩
    · exact Or.inl ⟨_, rfl, hlooked⟩
  | @settled h s₁ storage required =>
    rw [required] at hlooked ⊢
    refine Or.inr ⟨h, rfl, rfl, ?_⟩
    rw [board_resettle, ← hlooked]
    rfl

/-! ### Hooks -/

theorem board_attachSingle (c : Consumer) (pid : String) :
    (s.attachSingle c pid).board = s.board := by
  unfold attachSingle
  rw [board_schedule, board_configuration]

theorem board_muster (f : String) (roll : MusterRoll) (pid : String) :
    (s.muster f roll pid).2.board = s.board := by
  have hlooked := s.board_configuration pid
  unfold muster
  split
  · next he => rwa [he] at hlooked
  · next he =>
    rw [he] at hlooked
    dsimp only
    split
    · split <;> exact hlooked
    · exact hlooked
  · next he => rwa [he] at hlooked

theorem board_musterAll (f : String) (pids : List String) (roll : MusterRoll) :
    (musterAll f pids roll s).2.board = s.board := by
  induction pids generalizing roll s with
  | nil => rfl
  | cons pid rest ih => exact (ih _ _).trans (s.board_muster f roll pid)

theorem board_prune (before after : Roster) : (s.prune before after).board = s.board := by
  unfold prune
  split
  · dsimp only
    split <;> rfl
  · rfl

theorem board_attachMembers (c : Consumer) (f : String) :
    (s.attachMembers c f).board = s.board := by
  have hlooked := s.board_factory f
  unfold attachMembers
  split
  · next he => rwa [he] at hlooked
  · next roster s₁ he =>
    rw [he] at hlooked
    dsimp only
    rw [board_schedule, board_prune, board_musterAll]
    exact hlooked

theorem board_attachTo (c : Consumer) (identity : String) :
    (s.attachTo c identity).board = s.board := by
  unfold attachTo
  split
  · exact s.board_attachSingle c identity
  · exact s.board_attachMembers c identity

theorem board_consumerRegistered (c : Consumer) : (s.consumerRegistered c).board = s.board := by
  unfold consumerRegistered
  split
  · exact s.board_foldl (fun s pid => s.board_attachTo c pid) _
  · rfl

theorem board_consumerWithdrawn (service : Nat) :
    (s.consumerWithdrawn service).board = s.board :=
  s.board_foldl (f := fun s h => s.change h fun r => r.forget service) (fun _ _ => rfl) _

/-! ### Callbacks -/

@[simp] theorem board_noteCall (t : Target) (c : Consumer) (p : Option Properties)
    (o : Option Occasion) : (s.noteCall t c p o).board = s.board := by
  unfold noteCall
  split <;> rfl

@[simp] theorem board_countResult (f : Tally → Tally) (r : Except CallbackError Unit) :
    (s.countResult f r).board = s.board := by
  cases r <;> rfl

@[simp] theorem board_revoke (h : Handle) (t : Target) (c : Consumer) :
    (s.revoke h t c).board = s.board := by
  rw [revoke, board_countResult, board_noteCall]

@[simp] theorem board_serve (h : Handle) (t : Target) (c : Consumer) (g : Nat) (p : Properties) :
    (s.serve h t c g p).board = s.board := by
  rw [serve, board_change, board_countResult, board_noteCall]

@[simp] theorem board_greet (pid : String) (c : Consumer) (o : Option Occasion) :
    (s.greet pid c o).board = s.board := by
  rw [greet, board_countResult, board_noteCall]

@[simp] theorem board_expel (pid f : String) : (s.expel pid f).board = s.board := by
  have hlooked := s.board_factory f
  unfold expel
  split
  · next he => rwa [he] at hlooked
  · next he =>
    rw [he] at hlooked
    split
    · dsimp only
      split <;> exact hlooked
    · exact hlooked

/-- Only a record that nobody owns is bound, and that is told. -/
theorem board_bind (h : Handle) (location : String) :
    (s.bind h location).board =
      if (s.record h).owner.isSome then s.board else s.board.post (s.noticeOf .relocated h) := by
  have hsame : ((s.change h fun r => r.bind location).assignBinding (s.record h).pid
      (some location)).noticeOf .relocated h = s.noticeOf .relocated h :=
    s.noticeOf_change (fun r => (r.sameContent_bind location).pid)
      (fun r => (r.sameContent_bind location).factoryPid) h _ h
  unfold bind
  split
  · rfl
  · rw [board_announce, hsame]
    rfl

/-! ### Changes of owners -/

/-- Records are visited, and it is told of those whose owner changed.  Nothing else is told, and the
owner of no other record changes.  What is visited twice may change and change back. -/
structure Visits (visits : List Handle) (s s' : Session) : Prop where
  length : s'.records.length = s.records.length
  pid : ∀ h, (s'.record h).pid = (s.record h).pid
  factoryPid : ∀ h, (s'.record h).factoryPid = (s.record h).factoryPid
  told : ∃ moved : List Handle, moved.Sublist visits ∧
    s'.board = s.board.postAll (moved.map (s.noticeOf .relocated)) ∧
    (visits.Nodup → ∀ h < s.records.length,
      (h ∈ moved ↔ (s'.record h).owner ≠ (s.record h).owner))
  others : ∀ h, h ∉ visits → (s'.record h).owner = (s.record h).owner

namespace Visits

variable {s s' s'' : Session} {visits visits' : List Handle}

theorem noticeOf (hv : Visits visits s s') (c : Change) (h : Handle) :
    s'.noticeOf c h = s.noticeOf c h := by
  rw [Session.noticeOf, Session.noticeOf, hv.pid, hv.factoryPid]

/-- Nothing is told, and no owner changes. -/
theorem of_same (hb : s'.board = s.board) (hl : s'.records.length = s.records.length)
    (hr : ∀ h, (s.record h).SameContent (s'.record h))
    (ho : ∀ h, (s'.record h).owner = (s.record h).owner) : Visits visits s s' where
  length := hl
  pid := fun h => (hr h).pid
  factoryPid := fun h => (hr h).factoryPid
  told := ⟨[], List.nil_sublist _, hb, fun _ h _ =>
    ⟨fun hm => absurd hm List.not_mem_nil, fun hne => absurd (ho h) hne⟩⟩
  others := fun h _ => ho h

theorem refl (s : Session) : Visits visits s s := of_same rfl rfl (fun _ => .refl _) fun _ => rfl

theorem of_records (hb : s'.board = s.board) (hr : s'.records = s.records) :
    Visits visits s s' := by
  have hrec : ∀ h, s'.record h = s.record h := by
    intro h
    unfold record World.record
    rw [hr]
  exact of_same hb (by rw [hr]) (fun h => hrec h ▸ .refl _) fun h => by rw [hrec]

/-- A record is marked. -/
theorem of_mark {h : Handle} {f : Record → Record} (hb : s'.board = s.board)
    (hr : s'.records = (s.change h f).records) (hf : ∀ r : Record, r.SameContent (f r))
    (ho : ∀ r : Record, (f r).owner = r.owner) : Visits visits s s' := by
  have hrec : ∀ i, s'.record i = (s.change h f).record i := by
    intro i
    unfold record World.record
    rw [hr]
  refine of_same hb (by rw [hr]; exact s.view.length_change h f) (fun i => ?_) fun i => ?_
  · rw [hrec]
    exact (View.alike_change hf s.view h).content i
  · rw [hrec]
    exact s.view.record_change_of_eq ho h i

/-- The owner of one record changes, and that is told. -/
theorem of_move {h : Handle} {f : Record → Record}
    (hb : s'.board = s.board.post (s.noticeOf .relocated h))
    (hr : s'.records = (s.change h f).records) (hf : ∀ r : Record, r.SameContent (f r))
    (ho : (f (s.record h)).owner ≠ (s.record h).owner) : Visits [h] s s' := by
  have hrec : ∀ i, s'.record i = (s.change h f).record i := by
    intro i
    unfold record World.record
    rw [hr]
  have hothers : ∀ i, i ≠ h → s'.record i = s.record i := by
    intro i hne
    rw [hrec]
    exact s.view.record_change_ne hne f
  have hsame := (View.alike_change hf s.view h).content
  refine ⟨by rw [hr]; exact s.view.length_change h f, fun i => hrec i ▸ (hsame i).pid,
    fun i => hrec i ▸ (hsame i).factoryPid, ⟨[h], .refl _, hb, fun _ i hi => ?_⟩, fun i hi => ?_⟩
  · rw [List.mem_singleton]
    refine ⟨?_, fun hne => ?_⟩
    · rintro rfl
      rw [hrec, show (s.change i f).record i = f (s.record i) from
        s.view.record_change_self hi f]
      exact ho
    · by_cases hne' : i = h
      · exact hne'
      · exact absurd (by rw [hothers i hne']) hne
  · rw [hothers i fun he => hi (List.mem_singleton.mpr he)]

theorem trans (h : Visits visits s s') (h' : Visits visits' s' s'') :
    Visits (visits ++ visits') s s'' := by
  obtain ⟨moved, hsub, hboard, hmoved⟩ := h.told
  obtain ⟨moved', hsub', hboard', hmoved'⟩ := h'.told
  refine ⟨h'.length.trans h.length, fun i => (h'.pid i).trans (h.pid i),
    fun i => (h'.factoryPid i).trans (h.factoryPid i), ⟨moved ++ moved', hsub.append hsub', ?_, ?_⟩,
    fun i hi => ?_⟩
  · have hnotice : s'.noticeOf .relocated = s.noticeOf .relocated :=
      funext fun i => h.noticeOf .relocated i
    rw [hboard', hboard, hnotice, List.map_append, Board.postAll_append]
  · -- nothing is visited both before and after
    intro hd i hi
    obtain ⟨hd₁, hd₂, hdisjoint⟩ := List.nodup_append.mp hd
    rw [List.mem_append]
    by_cases hm : i ∈ visits
    · have hm' : i ∉ visits' := fun hm' => hdisjoint i hm i hm' rfl
      have hn : i ∉ moved' := fun hx => hm' (hsub'.subset hx)
      rw [h'.others i hm', ← hmoved hd₁ i hi]
      exact ⟨fun hx => hx.resolve_right hn, Or.inl⟩
    · have hn : i ∉ moved := fun hx => hm (hsub.subset hx)
      rw [← h.others i hm, ← hmoved' hd₂ i (h.length ▸ hi)]
      exact ⟨fun hx => hx.resolve_left hn, Or.inr⟩
  · rw [List.mem_append, not_or] at hi
    rw [h'.others i hi.2, h.others i hi.1]

/-- A silent end. -/
theorem silent (h : Visits visits s s') (h' : Visits [] s' s'') : Visits visits s s'' := by
  have hboth := h.trans h'
  rwa [List.append_nil] at hboth

/-- Each round of a loop visits records of its own. -/
theorem foldl {α : Type} {f : Session → α → Session} {met : α → List Handle}
    (hround : ∀ s a, Visits (met a) s (f s a)) (l : List α) (s : Session) :
    Visits (l.flatMap met) s (l.foldl f s) := by
  induction l generalizing s with
  | nil => exact refl s
  | cons a rest ih => exact (hround s a).trans (ih (f s a))

/-- A loop that visits nothing. -/
theorem foldl_silent {α : Type} {f : Session → α → Session} (hround : ∀ s a, Visits [] s (f s a))
    (l : List α) (s : Session) : Visits [] s (l.foldl f s) := by
  have hloop := foldl hround l s
  rwa [List.flatMap_eq_nil_iff.mpr fun _ _ => rfl] at hloop

/-- What is told of records that are there, and visited once. -/
theorem told_eq (h : Visits visits s s') (hd : visits.Nodup)
    (hk : ∀ i ∈ visits, i < s.records.length) :
    s'.board = s.board.postAll ((visits.filter fun i =>
      (s'.record i).owner ≠ (s.record i).owner).map (s.noticeOf .relocated)) := by
  obtain ⟨moved, hsub, hboard, hmoved⟩ := h.told
  have he : moved = visits.filter fun i => (s'.record i).owner ≠ (s.record i).owner :=
    filter_of_sublist hsub hd fun i hi => by rw [hmoved hd i (hk i hi), decide_eq_true_iff]
  rw [hboard, he]

end Visits

/-! ### Work -/

section Work

variable (s : Session) {visits : List Handle}

theorem bind_visits (h : Handle) (location : String) : Visits [h] s (s.bind h location) := by
  have hrecords : (s.bind h location).records = (s.change h fun r => r.bind location).records :=
    congrArg View.records (s.view_bind h location)
  by_cases ho : (s.record h).owner.isSome = true
  · have he : s.bind h location = s := by rw [bind, if_pos ho]
    rw [he]
    exact .refl s
  · refine .of_move ?_ hrecords (fun r => r.sameContent_bind location) ?_
    · rw [board_bind, if_neg ho]
    · rw [Record.owner_bind]
      intro he
      rw [← he] at ho
      exact ho rfl

theorem serve_visits (h : Handle) (t : Target) (c : Consumer) (g : Nat) (p : Properties) :
    Visits visits s (s.serve h t c g p) :=
  .of_mark (s.board_serve h t c g p) (congrArg View.records (s.view_serve h t c g p))
    (fun r => r.sameContent_note c.service.id g) fun _ => rfl

theorem offer_visits (h : Handle) (t : Target) (owner : Option String) (g : Nat) (p : Properties)
    (c : Consumer) : Visits visits s (s.offer h t owner g p c) := by
  unfold offer
  split
  · exact .of_records rfl rfl
  · split
    · exact s.serve_visits h t c g p
    · exact .of_records rfl rfl

theorem bindFirst_visits (h : Handle) (targets : List Consumer) :
    Visits [h] s (s.bindFirst h targets) := by
  cases targets with
  | nil => exact .refl s
  | cons c rest => exact s.bind_visits h c.service.location

theorem deliver_visits (h : Handle) (g : Nat) (p : Properties) :
    Visits [h] s (s.deliver h g p) := by
  unfold deliver
  dsimp only
  split
  · exact .refl s
  · split
    · exact .of_records rfl rfl
    · have hbound := s.bindFirst_visits h ((s.record h).target.resolve s.directory)
      generalize s.bindFirst h _ = s₁ at hbound ⊢
      have hserved : Visits [] s₁ (((s.record h).target.resolve s.directory).foldl
          (fun s' c => s'.offer h (s.record h).target (s₁.record h).owner g p c) s₁) :=
        .foldl_silent (fun s' c => s'.offer_visits h _ _ g p c) _ s₁
      exact (hbound.silent hserved).silent
        (.of_mark rfl rfl (fun r => r.sameContent_advance g) fun _ => rfl)

theorem revoke_visits (h : Handle) (t : Target) (c : Consumer) :
    Visits visits s (s.revoke h t c) :=
  .of_records (s.board_revoke h t c) (congrArg View.records (s.view_revoke h t c))

theorem greet_visits (pid : String) (c : Consumer) (o : Option Occasion) :
    Visits visits s (s.greet pid c o) :=
  .of_records (s.board_greet pid c o) (congrArg View.records (s.view_greet pid c o))

theorem expel_visits (pid f : String) : Visits visits s (s.expel pid f) := by
  refine .of_records (s.board_expel pid f) ?_
  have hlooked := s.records_factory f
  unfold expel
  split
  · next he => rwa [he] at hlooked
  · next he =>
    rw [he] at hlooked
    split
    · dsimp only
      split <;> exact hlooked
    · exact hlooked

theorem retract_visits (h : Handle) (owner : Option String) :
    Visits [h] s (s.retract h owner) := by
  have hround : ∀ (s' : Session) (c : Consumer),
      Visits [] s' (s'.retractFrom h (s.record h).target owner c) := by
    intro s' c
    unfold retractFrom
    split
    · exact s'.revoke_visits h _ c
    · exact .refl s'
  have hloop := Visits.foldl_silent hround ((s.record h).target.resolve s.directory) s
  unfold retract
  dsimp only
  split
  · exact hloop.trans (expel_visits _ _ _)
  · exact hloop.trans (.refl _)

theorem reconsider_visits (h : Handle) (t : Target) (former owner : Option String) (c : Consumer) :
    Visits [] s (s.reconsider h t former owner c) := by
  unfold reconsider
  dsimp only
  split
  · exact (s.revoke_visits h t c).silent
      (.of_mark (h := h) rfl rfl (fun r => r.sameContent_forget c.service.id) fun _ => rfl)
  · split
    · split
      · exact s.serve_visits h t c _ _
      · exact .refl s
    · exact .refl s

theorem relocate_visits (h : Handle) (former : Option String) :
    Visits [h] s (s.relocate h former) := by
  unfold relocate
  dsimp only
  split
  · exact .refl s
  · have hbound := s.bindFirst_visits h ((s.record h).target.resolve s.directory)
    generalize s.bindFirst h _ = s₁ at hbound ⊢
    exact hbound.silent (.foldl_silent (fun s' c => s'.reconsider_visits h _ former _ c) _ s₁)

theorem introduce_visits (h : Handle) (t : Target) (c : Consumer) (g : Nat) (p : Properties) :
    Visits [h] s (s.introduce h t c g p) := by
  unfold introduce
  dsimp only
  split
  · exact .refl s
  · split
    · exact .of_records rfl rfl
    · split
      · exact (s.bind_visits h c.service.location).silent (serve_visits ..)
      · exact .of_records rfl rfl

theorem attach_visits (c : Consumer) (pid : String) (snapshot : Option Snapshot) :
    Visits (Task.attach c pid snapshot).records s (s.attach c pid snapshot) := by
  unfold attach
  split
  · exact .refl s
  · match snapshot with
    | none => exact s.greet_visits pid c none
    | some ⟨h, some p, g⟩ => exact s.introduce_visits h (.single pid) c g p
    | some ⟨h, none, g⟩ =>
      show Visits [h] s (s.introduceEmpty h pid c)
      unfold introduceEmpty
      dsimp only
      split
      · exact .refl s
      · split
        · exact (s.bind_visits h c.service.location).silent (greet_visits ..)
        · exact .of_records rfl rfl

theorem attachFactory_visits (c : Consumer) (f : String) (members : List Snapshot) :
    Visits (Task.attachFactory c f members).records s (s.attachFactory c members) := by
  have hround : ∀ (s' : Session) (m : Snapshot), Visits [m.record] s' (s'.attachMember c m) := by
    intro s' m
    unfold attachMember
    split
    · exact s'.introduce_visits m.record _ c m.generation _
    · exact .refl s'
  unfold attachFactory
  split
  · exact .refl s
  · have hloop := Visits.foldl hround members s
    rwa [← List.map_eq_flatMap] at hloop

/-- **A task visits the records that it speaks of.** -/
theorem perform_visits (t : Task) : Visits t.records s (s.perform t) := by
  cases t with
  | deliver h g p => exact s.deliver_visits h g p
  | retract h owner => exact s.retract_visits h owner
  | relocate h former => exact s.relocate_visits h former
  | attach c pid snapshot => exact s.attach_visits c pid snapshot
  | attachFactory c f members => exact s.attachFactory_visits c f members

/-- The records that are bound to a location are visited when its provider is gone. -/
theorem locationUninstalled_visits (location : String) :
    Visits s.cache.records.values s (s.locationUninstalled location) := by
  have hround : ∀ (s' : Session) (h : Handle), Visits [h] s' (s'.releaseFrom location h) := by
    intro s' h
    unfold releaseFrom
    split
    · next hbound =>
      have hsame := s'.noticeOf_change (f := fun r => r.release location)
        (fun r => (r.sameContent_release location).pid)
        (fun r => (r.sameContent_release location).factoryPid) h .relocated h
      refine .of_move (f := fun r => r.release location) ?_ ?_
        (fun r => r.sameContent_release location) ?_
      · rw [board_schedule, board_announce, hsame, board_change]
      · have hview : (((s'.change h fun r => r.release location).announce .relocated h).schedule
            (.relocate h (some location))).view = (s'.view.change h fun r =>
              r.release location).enqueue (.relocate h (some location)) := by
          rw [view_schedule, view_announce, view_change]
        have hrecords := congrArg View.records hview
        rw [View.enqueue_eq] at hrecords
        exact hrecords
      · rw [Record.owner_of_isBoundTo _ hbound, Record.owner_release hbound]
        exact (Option.some_ne_none location).symm
    · exact .refl s'
  have hsameStored : ∀ pids : List String,
      Visits [] s (pids.foldl (fun s pid => s.assignBinding pid none) s) :=
    fun pids => .foldl_silent (f := fun s pid => s.assignBinding pid none)
      (fun s' pid => .of_records rfl rfl) pids s
  obtain ⟨hview, -⟩ := foldl_assignBinding (s.bindings.boundTo location) s
  have hvalues : ((s.bindings.boundTo location).foldl
      (fun s pid => s.assignBinding pid none) s).cache.records = s.cache.records :=
    congrArg View.cached hview
  unfold locationUninstalled
  dsimp only
  rw [hvalues]
  have hloop := Visits.foldl hround s.cache.records.values
    ((s.bindings.boundTo location).foldl (fun s pid => s.assignBinding pid none) s)
  rw [← List.map_eq_flatMap, List.map_id'] at hloop
  exact (hsameStored _).trans hloop

end Work

/-- **Steps.**  Whatever happens puts notices up and does nothing else to the board, unless a
listener comes or goes, notices are sent, or the session ends. -/
theorem step_board (s : Session) {a : Action} (hcome : ∀ l, a ≠ .listenerRegistered l)
    (hgo : ∀ service, a ≠ .listenerWithdrawn service) (hsend : a ≠ .runNotice)
    (hend : a ≠ .shutdown) : ∃ news, (s.step a).2.board = s.board.postAll news := by
  cases a with
  | getOrCreate pid location => exact ⟨[], s.board_getOrCreate pid location⟩
  | getExisting pid => exact ⟨[], s.board_getExisting pid⟩
  | createMember f location names => exact ⟨[], s.board_createMember f location names⟩
  | members f => exact ⟨[], s.board_members f⟩
  | getLocation pid => exact ⟨[], s.board_getLocation pid⟩
  | list | addPlugin | removePlugin => exact ⟨[], rfl⟩
  | update pid p =>
    rcases s.board_update pid p with ⟨_, -, hb⟩ | ⟨_, _, -, -, hb⟩
    · exact ⟨[], hb⟩
    · exact ⟨[_], hb⟩
  | delete pid =>
    rcases s.board_delete pid with ⟨_, -, hb⟩ | ⟨_, -, -, hb⟩
    · exact ⟨[], hb⟩
    · exact ⟨[_], hb⟩
  | setLocation pid location =>
    rcases s.board_setLocation pid location with ⟨_, -, hb⟩ | ⟨_, -, -, hb⟩
    · exact ⟨[], hb⟩
    · split at hb
      · exact ⟨[], hb⟩
      · exact ⟨[_], hb⟩
  | consumerRegistered c => exact ⟨[], s.board_consumerRegistered c⟩
  | consumerWithdrawn service => exact ⟨[], s.board_consumerWithdrawn service⟩
  | listenerRegistered l => exact absurd rfl (hcome l)
  | listenerWithdrawn service => exact absurd rfl (hgo service)
  | locationUninstalled location =>
    obtain ⟨moved, -, hb, -⟩ := (s.locationUninstalled_visits location).told
    exact ⟨_, hb⟩
  | submit t => exact ⟨[], s.board_schedule t⟩
  | around action =>
    refine ⟨[], ?_⟩
    cases action with
    | withdraw id | behave id =>
      simp only [step, World.step]
      split <;> rfl
    | install | setState | uninstall | addConsumer | addListener | backend => rfl
  | runUpdate =>
    show ∃ news, s.runUpdate.board = s.board.postAll news
    cases hw : s.view.waiting with
    | nil => exact ⟨[], by rw [s.runUpdate_idle hw]; rfl⟩
    | cons t rest =>
      rw [s.runUpdate_busy hw]
      obtain ⟨moved, -, hb, -⟩ := (perform_visits { s with updates := s.updates.pop } t).told
      exact ⟨_, hb⟩
  | runNotice => exact absurd rfl hsend
  | shutdown => exact absurd rfl hend

end Session
end Provisioning
