import Provisioning.Session.Admin

/-! # How a call goes

A call of an administrator looks things up, stores what it is about to change, and then makes the
change.  Here every call is taken apart, once: either it ends with what was looked up, or it comes
to its change, and then it is known what was found before and what was stored.  Whatever a call
keeps is proved along these courses, and no later argument opens a call again.
-/
namespace Provisioning
namespace Session

variable (s : Session)

/-! ### Calls that look things up -/

/-- Requiring a record is looking it up; what is required is there. -/
theorem require_spec (pid : String) :
    (s.require pid).2 = (s.configuration pid).2 ∧
      ∀ h, (s.require pid).1 = .ok h → (s.configuration pid).1 = .ok (some h) := by
  unfold require
  split
  · next he => exact ⟨by rw [he], fun _ h => by cases h⟩
  · next he => exact ⟨by rw [he], fun _ h => by cases h⟩
  · next he =>
    split
    · exact ⟨by rw [he], fun _ h => by cases h⟩
    · exact ⟨by rw [he], fun _ h => by cases h; rw [he]⟩

theorem getExisting_looks (pid : String) :
    (s.getExisting pid).2 = s ∨ (s.getExisting pid).2 = (s.configuration pid).2 := by
  unfold getExisting
  split
  · exact Or.inl rfl
  · split <;> next he => exact Or.inr (by rw [he])

theorem members_looks (f : String) :
    (s.members f).2 = s ∨ (s.members f).2 = (s.factory f).2 := by
  unfold members
  split
  · exact Or.inl rfl
  · split <;> next he => exact Or.inr (by rw [he])

theorem getLocation_looks (pid : String) :
    (s.getLocation pid).2 = s ∨ (s.getLocation pid).2 = (s.configuration pid).2 := by
  rw [← (s.require_spec pid).1]
  unfold getLocation
  split
  · exact Or.inl rfl
  · split <;> next he => exact Or.inr (by rw [he])

/-! ### Calls that make a record -/

/-- How a record is got, or made when there is none. -/
inductive Creating (pid : String) (location : Option String) :
    Except AdminError Handle × Session → Prop
  | refused {e : AdminError} {s' : Session} (looked : s' = s ∨ s' = (s.configuration pid).2) :
    Creating pid location (.error e, s')
  | found {h : Handle} (found : (s.configuration pid).1 = .ok (some h)) :
    Creating pid location (.ok h, (s.configuration pid).2)
  | made {s₁ : Session} {home : String} {r : Record} {storage : Storage}
    (absent : s.configuration pid = (.ok none, s₁)) (primary : s₁.storage.primary = .ok home)
    (new : r = ({ pid, factoryPid := none, home, staticLocation := location } : Record).restore
      (s₁.bindings.get? pid))
    (stored : s₁.storage.store home pid r.persisted = .ok storage) :
    Creating pid location
      (.ok (({ s₁ with storage } : Session).keepRecord r).1,
        (({ s₁ with storage } : Session).keepRecord r).2)

theorem creating (pid : String) (location : Option String) :
    s.Creating pid location (s.getOrCreate pid location) := by
  unfold getOrCreate
  split
  · exact .refused (Or.inl rfl)
  · split
    · exact .refused (Or.inl rfl)
    · split
      · next he => exact .refused (Or.inr (by rw [he]))
      · next h s₁ he =>
        have hs : (s.configuration pid).2 = s₁ := by rw [he]
        exact hs ▸ .found (by rw [he])
      · next s₁ he =>
        split
        · exact .refused (Or.inr (by rw [he]))
        · next home hp =>
          dsimp only
          split
          · exact .refused (Or.inr (by rw [he]))
          · next storage hst => exact .made he hp rfl hst

/-- How a member is made under the first free one of some names. -/
inductive Minting (f : String) (location : Option String) :
    Session → List String → Except AdminError (Option Handle) × Session → Prop
  | exhausted {s : Session} : Minting f location s [] (.ok none, s)
  | refused {s : Session} {pid : String} {rest : List String} {e : AdminError} :
    Minting f location s (pid :: rest) (.error e, (s.configuration pid).2)
  | taken {s : Session} {pid : String} {rest : List String}
    {result : Except AdminError (Option Handle) × Session}
    (next : Minting f location (s.configuration pid).2 rest result) :
    Minting f location s (pid :: rest) result
  | made {s s₁ : Session} {pid home : String} {rest : List String} {r : Record}
    (absent : s.configuration pid = (.ok none, s₁)) (primary : s₁.storage.primary = .ok home)
    (new : r = { pid, factoryPid := some f, home, staticLocation := location }) :
    Minting f location s (pid :: rest) (.ok (some (s₁.keepRecord r).1), (s₁.keepRecord r).2)

theorem minting (f : String) (location : Option String) (names : List String) :
    Minting f location s names (s.mintMember f location names) := by
  induction names generalizing s with
  | nil => exact .exhausted
  | cons pid rest ih =>
    unfold mintMember
    split
    · next e s₁ he =>
      have hs : (s.configuration pid).2 = s₁ := by rw [he]
      exact hs ▸ .refused
    · next s₁ he =>
      have hs : (s.configuration pid).2 = s₁ := by rw [he]
      exact .taken (hs ▸ ih s₁)
    · next s₁ he =>
      split
      · have hs : (s.configuration pid).2 = s₁ := by rw [he]
        exact hs ▸ .refused
      · next home hp => exact .made he hp rfl

/-- How a member of a factory is made. -/
inductive Recruiting (f : String) (location : Option String) (names : List String) :
    Except AdminError (Option Handle) × Session → Prop
  | refused {e : AdminError} {s' : Session} (looked : s' = s ∨ s' = (s.factory f).2) :
    Recruiting f location names (.error e, s')
  | minted {result : Except AdminError (Option Handle) × Session}
    (minting : Minting f location (s.factory f).2 names result) :
    Recruiting f location names result

theorem recruiting (f : String) (location : Option String) (names : List String) :
    s.Recruiting f location names (s.createMember f location names) := by
  unfold createMember
  split
  · exact .refused (Or.inl rfl)
  · split
    · exact .refused (Or.inl rfl)
    · split
      · next he => exact .refused (Or.inr (by rw [he]))
      · next s₁ he =>
        have hs : (s.factory f).2 = s₁ := by rw [he]
        exact .minted (hs ▸ s₁.minting f location names)

/-! ### Calls that change a record -/

/-- How a record joins its factory. -/
inductive Joining (h : Handle) : Except AdminError Unit × Session → Prop
  | single (factory : (s.record h).factoryPid = none) : Joining h (.ok (), s)
  | refused {f : String} {e : AdminError} (factory : (s.record h).factoryPid = some f) :
    Joining h (.error e, (s.factory f).2)
  | listed {f : String} {roster : Roster} {s₁ : Session}
    (factory : (s.record h).factoryPid = some f) (found : s.factory f = (.ok roster, s₁))
    (listed : roster.contains (s.record h).pid = true) : Joining h (.ok (), s₁)
  | joined {f : String} {roster : Roster} {s₁ : Session} {storage : Storage}
    (factory : (s.record h).factoryPid = some f) (found : s.factory f = (.ok roster, s₁))
    (unlisted : roster.contains (s.record h).pid = false)
    (stored : (roster.add (s.record h).pid).store s₁.storage = .ok storage) :
    Joining h (.ok (), ({ s₁ with storage } : Session).keepRoster (roster.add (s.record h).pid))

theorem joining (h : Handle) : s.Joining h (s.join h) := by
  unfold join
  dsimp only
  split
  · next hf => exact .single hf
  · next f hf =>
    split
    · next e s₁ he =>
      have hs : (s.factory f).2 = s₁ := by rw [he]
      exact hs ▸ .refused hf
    · next roster s₁ he =>
      split
      · next hc => exact .listed hf he hc
      · next hc =>
        split
        · have hs : (s.factory f).2 = s₁ := by rw [he]
          exact hs ▸ .refused hf
        · next storage hst => exact .joined hf he (by simpa using hc) hst

/-- How a record is updated. -/
inductive Updating (pid : String) (p : Properties) : Except AdminError Nat × Session → Prop
  | refused {e : AdminError} {s' : Session} (looked : s' = s ∨ s' = (s.require pid).2) :
    Updating pid p (.error e, s')
  /-- The record is found, and cannot join its factory. -/
  | unjoined {h : Handle} {s₁ s₂ : Session} {e : AdminError}
    (required : s.require pid = (.ok h, s₁)) (unjoined : s₁.join h = (.error e, s₂)) :
    Updating pid p (.error e, s₂)
  /-- The record has joined its factory, and cannot be stored. -/
  | unstored {h : Handle} {s₁ s₂ : Session} {e : StorageError}
    (required : s.require pid = (.ok h, s₁)) (joined : s₁.join h = (.ok (), s₂))
    (unstored : s₂.storage.store (s₂.record h).home pid ((s₂.record h).persistedWith p) =
      .error e) : Updating pid p (.error (.storage e), s₂)
  | updated {h : Handle} {s₁ s₂ : Session} {storage : Storage}
    (required : s.require pid = (.ok h, s₁)) (joined : s₁.join h = (.ok (), s₂))
    (stored : s₂.storage.store (s₂.record h).home pid ((s₂.record h).persistedWith p) =
      .ok storage) :
    Updating pid p (.ok ((s₂.record h).counter + 1), ({ s₂ with storage } : Session).commit h p)

theorem updating (pid : String) (p : Properties) : s.Updating pid p (s.update pid p) := by
  unfold update
  split
  · exact .refused (Or.inl rfl)
  · split
    · next he => exact .refused (Or.inr (by rw [he]))
    · next h s₁ he =>
      split
      · next hj => exact .unjoined he hj
      · next s₂ hj =>
        dsimp only
        split
        · next hst => exact .unstored he hj hst
        · next hst => exact .updated he hj hst

/-- How a record is deleted. -/
inductive Deleting (pid : String) : Except AdminError Unit × Session → Prop
  | refused {e : AdminError} {s' : Session} (looked : s' = s ∨ s' = (s.require pid).2) :
    Deleting pid (.error e, s')
  | deleted {h : Handle} {s₁ : Session} {storage : Storage} (running : s.isRunning = true)
    (required : s.require pid = (.ok h, s₁))
    (stored : s₁.storage.delete (s₁.record h).home pid = .ok storage) :
    Deleting pid (.ok (), ({ s₁ with storage } : Session).discard h pid)

theorem deleting (pid : String) : s.Deleting pid (s.delete pid) := by
  unfold delete
  split
  · exact .refused (Or.inl rfl)
  · next hrun =>
    split
    · next he => exact .refused (Or.inr (by rw [he]))
    · next h s₁ he =>
      split
      · exact .refused (Or.inr (by rw [he]))
      · next hst => exact .deleted (by simpa using hrun) he hst

/-- How the location of a record is set. -/
inductive Settling (pid : String) (location : Option String) :
    Except AdminError Unit × Session → Prop
  | refused {e : AdminError} {s' : Session} (looked : s' = s ∨ s' = (s.require pid).2) :
    Settling pid location (.error e, s')
  | settled {h : Handle} {s₁ : Session} {storage : Storage}
    (required : s.require pid = (.ok h, s₁))
    (stored : s₁.storeLocation h pid location = .ok storage) :
    Settling pid location (.ok (), ({ s₁ with storage } : Session).resettle h pid location)

theorem settling (pid : String) (location : Option String) :
    s.Settling pid location (s.setLocation pid location) := by
  unfold setLocation
  split
  · exact .refused (Or.inl rfl)
  · split
    · next he => exact .refused (Or.inr (by rw [he]))
    · next h s₁ he =>
      split
      · exact .refused (Or.inr (by rw [he]))
      · next hst => exact .settled he hst

end Session
end Provisioning
