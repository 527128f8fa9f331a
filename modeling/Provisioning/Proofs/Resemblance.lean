import Provisioning.Session.Step

/-! # Work on sessions that resemble each other

A task reads of a session its records, what is filed and stored, the access check, and which
consumers are live and listed for a target.  Two sessions that agree on these take the same
decisions when they run the same task: they bind, serve, revoke, pass over and refuse the same.
So a relation between sessions that agree on this much is kept by every task, if it is kept by
the few things that tasks do (`Resemblance.perform`), and likewise by every notice that is sent.

How far two sessions may differ otherwise is up to the relation.
-/
namespace Provisioning

namespace Session

/-- Two sessions look the same to the workers. -/
structure Matches (s t : Session) : Prop where
  records : t.records = s.records
  access : t.access = s.access
  storage : t.storage = s.storage
  cache : t.cache = s.cache
  notices : t.notices = s.notices
  targets : ∀ target : Target, target.resolve t.directory = target.resolve s.directory
  live : ∀ c, t.directory.isLive c = s.directory.isLive c

end Session

/-- A relation between sessions that look the same to the workers, kept by whatever the workers
do. -/
structure Resemblance (R : Session → Session → Prop) : Prop where
  sees : ∀ {s t}, R s t → s.Matches t
  change : ∀ {s t}, R s t → ∀ h f, R (s.change h f) (t.change h f)
  assignBinding : ∀ {s t}, R s t → ∀ pid location,
    R (s.assignBinding pid location) (t.assignBinding pid location)
  announce : ∀ {s t}, R s t → ∀ c h, R (s.announce c h) (t.announce c h)
  keepRoster : ∀ {s t}, R s t → ∀ r, R (s.keepRoster r) (t.keepRoster r)
  withStorage : ∀ {s t}, R s t → ∀ storage, R { s with storage } { t with storage }
  withNotices : ∀ {s t}, R s t → ∀ notices, R { s with notices } { t with notices }
  skip : ∀ {s t}, R s t → R s.skip t.skip
  deny : ∀ {s t}, R s t → R s.deny t.deny
  revoke : ∀ {s t}, R s t → ∀ h target c, R (s.revoke h target c) (t.revoke h target c)
  serve : ∀ {s t}, R s t → ∀ h target c g p, R (s.serve h target c g p) (t.serve h target c g p)
  greet : ∀ {s t}, R s t → ∀ pid c o, R (s.greet pid c o) (t.greet pid c o)
  tell : ∀ {s t}, R s t → ∀ n l, R (s.tell n l) (t.tell n l)

namespace Session.Matches

variable {s t : Session}

theorem record (hm : s.Matches t) (h : Handle) : t.record h = s.record h := by
  unfold Session.record World.record
  rw [hm.records]

theorem permits (hm : s.Matches t) (location : String) (owner : Option String) :
    t.permits location owner = s.permits location owner := by
  unfold Session.permits
  rw [hm.access]

end Session.Matches

namespace Resemblance

variable {R : Session → Session → Prop} {s t : Session}

/-- A loop keeps a relation if each of its rounds does. -/
theorem foldl_of_rounds {α : Type} {f g : Session → α → Session}
    (hround : ∀ {s t}, R s t → ∀ a, R (f s a) (g t a)) (h : R s t) (l : List α) :
    R (l.foldl f s) (l.foldl g t) := by
  induction l generalizing s t with
  | nil => exact h
  | cons a rest ih => exact ih (hround h a)

variable (hR : Resemblance R)

include hR

/-! ### Updates and deletions -/

theorem bind (h : R s t) (i : Handle) (location : String) :
    R (s.bind i location) (t.bind i location) := by
  have hrec := (hR.sees h).record i
  unfold Session.bind
  rw [hrec]
  split
  · exact h
  · exact hR.announce (hR.assignBinding (hR.change h _ _) _ _) _ _

theorem bindFirst (h : R s t) (i : Handle) (targets : List Consumer) :
    R (s.bindFirst i targets) (t.bindFirst i targets) := by
  cases targets with
  | nil => exact h
  | cons c rest => exact hR.bind h i c.service.location

theorem offer (h : R s t) (i : Handle) (target : Target) (owner : Option String) (g : Nat)
    (p : Properties) (c : Consumer) :
    R (s.offer i target owner g p c) (t.offer i target owner g p c) := by
  unfold Session.offer
  rw [(hR.sees h).record, (hR.sees h).permits]
  split
  · exact hR.skip h
  · split
    · exact hR.serve h i target c g p
    · exact hR.deny h

theorem deliver (h : R s t) (i : Handle) (g : Nat) (p : Properties) :
    R (s.deliver i g p) (t.deliver i g p) := by
  unfold Session.deliver
  simp only [(hR.sees h).record, (hR.sees h).targets]
  split
  · exact h
  · split
    · exact hR.skip h
    · have hbound := hR.bindFirst h i ((s.record i).target.resolve s.directory)
      rw [(hR.sees hbound).record]
      exact hR.change (foldl_of_rounds (R := R) (fun h' c => hR.offer h' i _ _ g p c) hbound _) _ _

theorem retractFrom (h : R s t) (i : Handle) (target : Target) (owner : Option String)
    (c : Consumer) : R (s.retractFrom i target owner c) (t.retractFrom i target owner c) := by
  unfold Session.retractFrom
  rw [(hR.sees h).permits]
  split
  · exact hR.revoke h i target c
  · exact h

/-- The same roster is found or not found. -/
theorem factory (h : R s t) (f : String) :
    (t.factory f).1 = (s.factory f).1 ∧ R (s.factory f).2 (t.factory f).2 := by
  unfold Session.factory
  rw [(hR.sees h).cache, (hR.sees h).storage]
  split
  · exact ⟨rfl, h⟩
  · split
    · split
      · exact ⟨rfl, hR.keepRoster h _⟩
      · exact ⟨rfl, h⟩
    · split
      · exact ⟨rfl, hR.keepRoster h _⟩
      · exact ⟨rfl, h⟩

theorem expel (h : R s t) (pid f : String) : R (s.expel pid f) (t.expel pid f) := by
  obtain ⟨hsame, hfound⟩ := hR.factory h f
  unfold Session.expel
  rcases hs : s.factory f with ⟨e | roster, s'⟩ <;> rcases ht : t.factory f with ⟨e' | roster', t'⟩
  all_goals
    rw [hs, ht] at hsame hfound
    cases hsame
  · exact hfound
  · dsimp only at hfound ⊢
    split
    · have hkept := hR.keepRoster hfound (roster.remove pid)
      rw [(hR.sees hkept).storage]
      split
      · exact hR.withStorage hkept _
      · exact hkept
    · exact hfound

theorem retract (h : R s t) (i : Handle) (owner : Option String) :
    R (s.retract i owner) (t.retract i owner) := by
  unfold Session.retract
  simp only [(hR.sees h).record, (hR.sees h).targets]
  have htold := foldl_of_rounds (R := R)
    (fun h' c => hR.retractFrom h' i (s.record i).target owner c) h
    ((s.record i).target.resolve s.directory)
  split
  · exact hR.expel htold _ _
  · exact htold

/-! ### Changes of the owner -/

theorem reconsider (h : R s t) (i : Handle) (target : Target) (former owner : Option String)
    (c : Consumer) :
    R (s.reconsider i target former owner c) (t.reconsider i target former owner c) := by
  unfold Session.reconsider
  simp only [(hR.sees h).record, (hR.sees h).permits]
  split
  · exact hR.change (hR.revoke h i target c) _ _
  · split
    · split
      · exact hR.serve h i target c _ _
      · exact h
    · exact h

theorem relocate (h : R s t) (i : Handle) (former : Option String) :
    R (s.relocate i former) (t.relocate i former) := by
  unfold Session.relocate
  simp only [(hR.sees h).record, (hR.sees h).targets]
  split
  · exact h
  · have hbound := hR.bindFirst h i ((s.record i).target.resolve s.directory)
    rw [(hR.sees hbound).record]
    exact foldl_of_rounds (R := R) (fun h' c => hR.reconsider h' i _ former _ c) hbound _

/-! ### First deliveries -/

theorem introduce (h : R s t) (i : Handle) (target : Target) (c : Consumer) (g : Nat)
    (p : Properties) : R (s.introduce i target c g p) (t.introduce i target c g p) := by
  unfold Session.introduce
  simp only [(hR.sees h).record, (hR.sees h).permits]
  split
  · exact h
  · split
    · exact hR.skip h
    · split
      · exact hR.serve (hR.bind h i _) i target c g p
      · exact hR.deny h

theorem introduceEmpty (h : R s t) (i : Handle) (pid : String) (c : Consumer) :
    R (s.introduceEmpty i pid c) (t.introduceEmpty i pid c) := by
  unfold Session.introduceEmpty
  simp only [(hR.sees h).record, (hR.sees h).permits]
  split
  · exact h
  · split
    · have hbound := hR.bind h i c.service.location
      rw [(hR.sees hbound).record]
      exact hR.greet hbound pid c _
    · exact hR.deny h

theorem attach (h : R s t) (c : Consumer) (pid : String) (snapshot : Option Snapshot) :
    R (s.attach c pid snapshot) (t.attach c pid snapshot) := by
  unfold Session.attach
  rw [(hR.sees h).live]
  split
  · exact h
  · split
    · exact hR.greet h pid c none
    · exact hR.introduce h _ _ c _ _
    · exact hR.introduceEmpty h _ pid c

theorem attachMember (h : R s t) (c : Consumer) (m : Snapshot) :
    R (s.attachMember c m) (t.attachMember c m) := by
  unfold Session.attachMember
  rw [(hR.sees h).record]
  split
  · exact hR.introduce h _ _ c _ _
  · exact h

theorem attachFactory (h : R s t) (c : Consumer) (members : List Snapshot) :
    R (s.attachFactory c members) (t.attachFactory c members) := by
  unfold Session.attachFactory
  rw [(hR.sees h).live]
  split
  · exact h
  · exact foldl_of_rounds (R := R) (fun h' m => hR.attachMember h' c m) h members

/-- **Every task keeps a resemblance.** -/
theorem perform (h : R s t) (task : Task) : R (s.perform task) (t.perform task) := by
  cases task with
  | deliver i g p => exact hR.deliver h i g p
  | retract i owner => exact hR.retract h i owner
  | relocate i former => exact hR.relocate h i former
  | attach c pid snapshot => exact hR.attach h c pid snapshot
  | attachFactory c f members => exact hR.attachFactory h c members

/-! ### Notices -/

theorem runNotice (h : R s t) : R s.runNotice t.runNotice := by
  unfold Session.runNotice
  rw [(hR.sees h).notices]
  split
  · exact h
  · exact foldl_of_rounds (R := R) (fun h' l => hR.tell h' _ l) (hR.withNotices h _) _

theorem runNotices (h : R s t) (n : Nat) :
    R (Session.runNotices n s) (Session.runNotices n t) := by
  induction n generalizing s t with
  | zero => exact h
  | succ n ih => exact ih (hR.runNotice h)

end Resemblance
end Provisioning
