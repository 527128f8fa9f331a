import Provisioning.Proofs.TaskEffects

/-! # What is stored without being asked for

Running a task writes the bindings and the rosters, and never a configuration; and so it is when
a consumer is withdrawn or a provider is uninstalled, and at the beginning.  A storage that holds
no configuration beside the cached ones stays so, and what it holds of a configuration stays as
it is.
-/
namespace Provisioning
namespace Session

variable (s : Session)

/-! ### Tasks -/

theorem noteCall_sameStored (t : Target) (c : Consumer) (p : Option Properties)
    (o : Option Occasion) : s.SameStored (s.noteCall t c p o) := by
  unfold noteCall
  split
  · exact ⟨rfl, .refl _⟩
  · exact .refl s

theorem countResult_sameStored (f : Tally → Tally) (r : Except CallbackError Unit) :
    s.SameStored (s.countResult f r) := by
  cases r <;> exact ⟨rfl, .refl _⟩

theorem serve_sameStored (h : Handle) (t : Target) (c : Consumer) (g : Nat) (p : Properties) :
    s.SameStored (s.serve h t c g p) :=
  ((noteCall_sameStored _ _ _ _ _).trans (countResult_sameStored _ _ _)).trans
    (change_sameStored _ _ _)

theorem revoke_sameStored (h : Handle) (t : Target) (c : Consumer) :
    s.SameStored (s.revoke h t c) :=
  (noteCall_sameStored _ _ _ _ _).trans (countResult_sameStored _ _ _)

theorem greet_sameStored (pid : String) (c : Consumer) (o : Option Occasion) :
    s.SameStored (s.greet pid c o) :=
  (noteCall_sameStored _ _ _ _ _).trans (countResult_sameStored _ _ _)

theorem skip_sameStored : s.SameStored s.skip := ⟨rfl, .refl _⟩

theorem deny_sameStored : s.SameStored s.deny := ⟨rfl, .refl _⟩

theorem bind_sameStored (h : Handle) (location : String) : s.SameStored (s.bind h location) := by
  unfold bind
  split
  · exact .refl s
  · exact ((change_sameStored _ _ _).trans (assignBinding_sameStored _ _ _)).trans
      (announce_sameStored _ _ _)

theorem bindFirst_sameStored (h : Handle) (targets : List Consumer) :
    s.SameStored (s.bindFirst h targets) := by
  unfold bindFirst
  split
  · exact .refl s
  · exact s.bind_sameStored h _

theorem offer_sameStored (h : Handle) (t : Target) (owner : Option String) (g : Nat)
    (p : Properties) (c : Consumer) : s.SameStored (s.offer h t owner g p c) := by
  unfold offer
  split
  · exact s.skip_sameStored
  · split
    · exact s.serve_sameStored h t c g p
    · exact s.deny_sameStored

theorem introduce_sameStored (h : Handle) (t : Target) (c : Consumer) (g : Nat) (p : Properties) :
    s.SameStored (s.introduce h t c g p) := by
  unfold introduce
  dsimp only
  split
  · exact .refl s
  · split
    · exact s.skip_sameStored
    · split
      · exact (s.bind_sameStored h _).trans (serve_sameStored _ _ _ _ _ _)
      · exact s.deny_sameStored

theorem introduceEmpty_sameStored (h : Handle) (pid : String) (c : Consumer) :
    s.SameStored (s.introduceEmpty h pid c) := by
  unfold introduceEmpty
  dsimp only
  split
  · exact .refl s
  · split
    · exact (s.bind_sameStored h _).trans (greet_sameStored _ _ _ _)
    · exact s.deny_sameStored

theorem reconsider_sameStored (h : Handle) (t : Target) (former owner : Option String)
    (c : Consumer) : s.SameStored (s.reconsider h t former owner c) := by
  unfold reconsider
  dsimp only
  split
  · exact (s.revoke_sameStored h t c).trans (change_sameStored _ _ _)
  · split
    · split
      · exact s.serve_sameStored h t c _ _
      · exact .refl s
    · exact .refl s

theorem factory_sameStored (f : String) : s.SameStored (s.factory f).2 := by
  rcases s.factory_keeps f with he | ⟨r, he⟩
  · rw [he]
    exact .refl s
  · rw [he]
    exact s.keepRoster_sameStored r

theorem expel_sameStored (pid f : String) : s.SameStored (s.expel pid f) := by
  have hf := s.factory_sameStored f
  unfold expel
  split
  · next he =>
    rw [he] at hf
    exact hf
  · next r s' he =>
    rw [he] at hf
    split
    · dsimp only
      split
      · next storage hst =>
        exact (hf.trans (s'.keepRoster_sameStored _)).trans (storeRoster_sameStored hst)
      · exact hf.trans (s'.keepRoster_sameStored _)
    · exact hf

/-- A task stores no configuration. -/
theorem perform_sameStored (t : Task) : s.SameStored (s.perform t) := by
  cases t with
  | deliver h g p =>
    show s.SameStored (s.deliver h g p)
    unfold deliver
    dsimp only
    split
    · exact .refl s
    · split
      · exact s.skip_sameStored
      · exact ((s.bindFirst_sameStored h _).trans
          (foldl_sameStored (fun s' c => s'.offer_sameStored h _ _ g p c) _ _)).trans
            (change_sameStored _ _ _)
  | retract h owner =>
    have hloop : s.SameStored (((s.record h).target.resolve s.directory).foldl
        (fun s' c => s'.retractFrom h (s.record h).target owner c) s) := by
      refine foldl_sameStored (fun s' c => ?_) _ s
      unfold retractFrom
      split
      · exact s'.revoke_sameStored h _ c
      · exact .refl s'
    show s.SameStored (s.retract h owner)
    unfold retract
    dsimp only
    split
    · exact hloop.trans (expel_sameStored _ _ _)
    · exact hloop
  | relocate h former =>
    show s.SameStored (s.relocate h former)
    unfold relocate
    dsimp only
    split
    · exact .refl s
    · exact (s.bindFirst_sameStored h _).trans
        (foldl_sameStored (fun s' c => s'.reconsider_sameStored h _ _ _ c) _ _)
  | attach c pid snapshot =>
    show s.SameStored (s.attach c pid snapshot)
    unfold attach
    split
    · exact .refl s
    · split
      · exact s.greet_sameStored pid c none
      · exact s.introduce_sameStored _ _ c _ _
      · exact s.introduceEmpty_sameStored _ pid c
  | attachFactory c f members =>
    show s.SameStored (s.attachFactory c members)
    unfold attachFactory
    split
    · exact .refl s
    · refine foldl_sameStored (fun s' m => ?_) _ s
      unfold attachMember
      split
      · exact s'.introduce_sameStored _ _ c _ _
      · exact .refl s'

theorem runUpdate_sameStored : s.SameStored s.runUpdate := by
  unfold runUpdate
  split
  · exact .refl s
  · refine SameStored.trans ?_ (perform_sameStored _ _)
    exact ⟨rfl, .refl _⟩

/-- Running a task admits nothing to the records. -/
theorem Closed.perform {admits : Record → Prop} {s : Session} (hs : s.Closed admits)
    (t : Task) : (s.perform t).Closed admits := by
  have hd := s.perform_taskEffects t
  have hst := hd.steady
  exact hs.of_gainsNoConfiguration (hd.filed hs.filed) (s.perform_sameStored t).gainsNoConfiguration
    hst.cached
    fun h => (hst.content h).home

/-! ### Consumers, listeners and providers -/

theorem runNotice_sameStored : s.SameStored s.runNotice := by
  unfold runNotice
  split
  · exact .refl s
  · refine SameStored.trans ?_ (foldl_sameStored (fun s' l => ?_) _ _)
    · exact ⟨rfl, .refl _⟩
    unfold tell
    dsimp only
    split
    · refine SameStored.trans ?_ (countResult_sameStored _ _ _)
      exact ⟨rfl, .refl _⟩
    · exact .refl s'

theorem consumerWithdrawn_sameStored (service : Nat) :
    s.SameStored (s.consumerWithdrawn service) := by
  unfold consumerWithdrawn
  exact foldl_sameStored (fun s' h => s'.change_sameStored h _) _ s

theorem locationUninstalled_sameStored (location : String) :
    s.SameStored (s.locationUninstalled location) := by
  unfold locationUninstalled
  refine (foldl_sameStored (fun s' pid => s'.assignBinding_sameStored pid none) _ s).trans
    (foldl_sameStored (fun s' h => ?_) _ _)
  unfold releaseFrom
  split
  · exact ((s'.change_sameStored h _).trans (announce_sameStored _ _ _)).trans
      (schedule_sameStored _ _)
  · exact .refl s'

end Session
end Provisioning
