import Provisioning.Proofs.Directories
import Provisioning.Proofs.Lookups
import Provisioning.Proofs.RecordFacts

/-! # What a task does

Running a task is a sequence of effects: a record is bound, a consumer is served, loses a record
or is greeted, a generation is marked as delivered to all.  `TaskEffect` lists them, each with
everything that was checked before it, and `perform_taskEffects` says that a task does nothing else.
Whatever a task keeps is proved of one effect and followed along the sequence.
-/
namespace Provisioning

open Relation (ReflTransGen)

/-- The properties that are said to a consumer. -/
def Message.properties? : Message → Option Properties
  | .updated p => p
  | .memberUpdated _ p => some p
  | .memberDeleted _ => none
  | .noticed _ => none

theorem Target.properties?_message (t : Target) (p : Option Properties) :
    (t.message p).properties? = p := by
  cases t with
  | single => rfl
  | member => cases p <;> rfl

theorem Target.properties?_call (t : Target) {c : Consumer} {p : Option Properties}
    {m : Message} (h : t.call? c p = some m) : m.properties? = p := by
  unfold Target.call? at h
  split at h
  · cases h
    exact t.properties?_message p
  · cases h

/-- A consumer may be handed what a record holds: the record is not deleted, the consumer is
live, and there is an owner, which is one that the consumer may see or the consumer's own
location. -/
structure View.MaySee (v : View) (h : Handle) (c : Consumer) : Prop where
  undeleted : (v.record h).deleted = false
  live : v.directory.isLive c.service = true
  owned : h < v.records.length → (v.record h).owner ≠ none
  visible : v.permits c.service.location (v.record h).owner = true ∨
    (v.record h).owner = some c.service.location

/-- Where nobody is kept from its own location, whoever may see a record may see the owner. -/
theorem View.MaySee.permits {v : View} {h : Handle} {c : Consumer} (hs : v.MaySee h c)
    (hown : ∀ l, v.permits l (some l) = true) :
    v.permits c.service.location (v.record h).owner = true := by
  rcases hs.visible with hp | hmine
  · exact hp
  · rw [hmine]
    exact hown _

namespace Task

/-- The records that a task speaks of. -/
def records : Task → List Handle
  | .deliver h _ _ => [h]
  | .retract h _ => [h]
  | .relocate h _ => [h]
  | .attach _ _ snapshot => snapshot.toList.map Snapshot.record
  | .attachFactory _ _ members => members.map Snapshot.record

/-- What a task has for a consumer: properties of a record, under a generation that is new to
the consumer or, after a change of the owner, is the newest of all. -/
def Brings (v : View) (h : Handle) (c : Consumer) (g : Nat) (p : Properties) : Task → Prop
  | .deliver h' g' p' =>
    h' = h ∧ g' = g ∧ p' = p ∧ c ∈ v.targets h ∧
      (v.record h).deliveredTo c.service.id g = false
  | .relocate h' former =>
    h' = h ∧ (v.record h).counter = g ∧ (v.record h).properties = some p ∧ c ∈ v.targets h ∧
      v.permits c.service.location former = false
  | .attach c' _ snapshot =>
    c' = c ∧ snapshot = some ⟨h, some p, g⟩ ∧ (v.record h).deliveredTo c.service.id g = false
  | .attachFactory c' _ members =>
    c' = c ∧ ⟨h, some p, g⟩ ∈ members ∧ (v.record h).deliveredTo c.service.id g = false
  | .retract _ _ => False

/-- How a task addresses the consumers of a record: the first delivery of a pid takes it for
that of a single configuration. -/
def address (v : View) (h : Handle) : Task → Target
  | .attach _ pid _ => .single pid
  | _ => (v.record h).target

end Task

/-- One thing that running a task does to what deliveries see. -/
inductive TaskEffect : Task → View → View → Prop
  /-- A record that is about to be served is bound, if nobody owns it. -/
  | bind {t : Task} {v : View} {h : Handle} {c : Consumer}
    (undeleted : (v.record h).deleted = false)
    (live : v.directory.isLive c.service = true) (mine : h ∈ t.records) :
    TaskEffect t v (v.change h fun r => r.bind c.service.location)
  /-- A consumer is handed properties, as the plugins leave them. -/
  | serve {t : Task} {v : View} {h : Handle} {c : Consumer} {g : Nat} {p : Properties}
    (sees : v.MaySee h c) (brings : t.Brings v h c g p) :
    TaskEffect t v ((v.hear (t.address v h) c
      (some (v.plugins.run (t.address v h).identity c.service p))
      (some ⟨h, v.record h, some (p, g)⟩)).change h fun r => r.note c.service.id g)
  /-- A generation counts as delivered to all. -/
  | advance {v : View} {h : Handle} {g : Nat} {p : Properties} :
    TaskEffect (.deliver h g p) v (v.change h fun r => r.advance g)
  /-- A consumer that saw a record under its former owner loses it. -/
  | revoke {v : View} {h : Handle} {c : Consumer} {former : Option String}
    (undeleted : (v.record h).deleted = false) (target : c ∈ v.targets h)
    (saw : v.permits c.service.location former = true)
    (unseen : v.permits c.service.location (v.record h).owner = false) :
    TaskEffect (.relocate h former) v ((v.hear (v.record h).target c none
      (some ⟨h, v.record h, none⟩)).change h fun r => r.forget c.service.id)
  /-- A consumer that could see a record when it was deleted loses it. -/
  | retract {v : View} {h : Handle} {c : Consumer} {owner : Option String}
    (target : c ∈ v.targets h) (saw : v.permits c.service.location owner = true) :
    TaskEffect (.retract h owner) v (v.hear (v.record h).target c none
      (some ⟨h, v.record h, none⟩))
  /-- A record that was deleted is struck off the roster of its factory. -/
  | strike {v v' : View} {h : Handle} {owner : Option String} {f : String}
    (factory : (v.record h).factoryPid = some f)
    (filing : View.Filing (fun f' pid => f' = f ∧ pid = (v.record h).pid) v v') :
    TaskEffect (.retract h owner) v v'
  /-- A consumer is told that there is no record of its pid. -/
  | greet {v : View} {c : Consumer} {pid : String}
    (live : v.directory.isLive c.service = true) :
    TaskEffect (.attach c pid none) v (v.hear (.single pid) c none none)
  /-- A consumer is told that a record had no properties when the consumer was attached. -/
  | greetEmpty {v : View} {h : Handle} {c : Consumer} {pid : String} {g : Nat}
    (sees : v.MaySee h c) :
    TaskEffect (.attach c pid (some ⟨h, none, g⟩)) v (v.hear (.single pid) c none
      (some ⟨h, v.record h, none⟩))

namespace View

variable {v v' v'' : View}

/-! ### What no task touches -/

/-- What no task touches: the world, the line and the cached records, and of a record all but
the binding and the marks; an owner that is there stays. -/
structure Steady (v v' : View) : Prop where
  directory : v'.directory = v.directory
  access : v'.access = v.access
  plugins : v'.plugins = v.plugins
  cached : v'.cached = v.cached
  waiting : v'.waiting = v.waiting
  accepting : v'.accepting = v.accepting
  length : v'.records.length = v.records.length
  content : ∀ h, (v.record h).SameContent (v'.record h)
  owned : ∀ h o, (v.record h).owner = some o → (v'.record h).owner = some o
  calls : ∃ new, v'.calls = v.calls ++ new

theorem Steady.refl (v : View) : v.Steady v :=
  ⟨rfl, rfl, rfl, rfl, rfl, rfl, rfl, fun _ => .refl _, fun _ _ h => h, [],
    (List.append_nil _).symm⟩

theorem Steady.trans (h : v.Steady v') (h' : v'.Steady v'') : v.Steady v'' where
  directory := h'.directory.trans h.directory
  access := h'.access.trans h.access
  plugins := h'.plugins.trans h.plugins
  cached := h'.cached.trans h.cached
  waiting := h'.waiting.trans h.waiting
  accepting := h'.accepting.trans h.accepting
  length := h'.length.trans h.length
  content := fun i => (h.content i).trans (h'.content i)
  owned := fun i o ho => h'.owned i o (h.owned i o ho)
  calls := by
    obtain ⟨new, hn⟩ := h.calls
    obtain ⟨new', hn'⟩ := h'.calls
    exact ⟨new ++ new', by rw [hn', hn, List.append_assoc]⟩

theorem Steady.permits (h : v.Steady v') (location : String) (owner : Option String) :
    v'.permits location owner = v.permits location owner :=
  permits_of_access h.access location owner

theorem Steady.targets (hs : v.Steady v') (h : Handle) : v'.targets h = v.targets h := by
  unfold View.targets
  rw [(hs.content h).target, hs.directory]

theorem steady_hear (t : Target) (c : Consumer) (p : Option Properties) (o : Option Occasion) :
    v.Steady (v.hear t c p o) :=
  ⟨rfl, rfl, rfl, rfl, rfl, rfl, rfl, fun _ => .refl _, fun _ _ h => h, _, rfl⟩

theorem steady_change {f : Record → Record} (hc : ∀ r : Record, r.SameContent (f r))
    (ho : ∀ (r : Record) o, r.owner = some o → (f r).owner = some o) (h : Handle) :
    v.Steady (v.change h f) where
  directory := rfl
  access := rfl
  plugins := rfl
  cached := rfl
  waiting := rfl
  accepting := rfl
  length := v.length_change h f
  content := by
    intro i
    rw [record_change]
    split
    · next he => rw [he.1]; exact hc _
    · exact .refl _
  owned := by
    intro i o hi
    rw [record_change]
    split
    · next he => rw [he.1] at hi; exact ho _ o hi
    · exact hi
  calls := ⟨[], (List.append_nil _).symm⟩

end View

theorem TaskEffect.steady {t : Task} {v v' : View} (hd : TaskEffect t v v') : v.Steady v' := by
  cases hd with
  | bind =>
    refine View.steady_change (fun r => r.sameContent_bind _) (fun r o ho => ?_) _
    rw [r.owner_bind, ho, Option.getD_some]
  | serve =>
    exact (View.steady_hear _ _ _ _).trans
      (View.steady_change (fun r => r.sameContent_note _ _) (fun _ _ ho => ho) _)
  | advance => exact View.steady_change (fun r => r.sameContent_advance _) (fun _ _ ho => ho) _
  | revoke =>
    exact (View.steady_hear _ _ _ _).trans
      (View.steady_change (fun r => r.sameContent_forget _) (fun _ _ ho => ho) _)
  | strike _ filing =>
    obtain ⟨rosters, rfl⟩ := filing.exists_rosters
    exact ⟨rfl, rfl, rfl, rfl, rfl, rfl, rfl, fun _ => .refl _, fun _ _ h => h, [],
      (List.append_nil _).symm⟩
  | retract | greet | greetEmpty => exact View.steady_hear _ _ _ _

/-- A sequence of effects of one task. -/
abbrev TaskEffects (t : Task) : View → View → Prop := ReflTransGen (TaskEffect t)

theorem TaskEffects.steady {t : Task} {v v' : View} (hd : TaskEffects t v v') : v.Steady v' := by
  induction hd with
  | refl => exact .refl v
  | tail _ hlast ih => exact ih.trans hlast.steady

/-- What each effect of a task keeps, the task keeps. -/
theorem TaskEffects.keep {t : Task} {K : View → Prop}
    (hstep : ∀ v v', TaskEffect t v v' → K v → K v')
    {v v' : View} (hd : TaskEffects t v v') (h : K v) : K v' := by
  induction hd with
  | refl => exact h
  | tail _ hlast ih => exact hstep _ _ hlast ih

/-- A task leaves what is known well filed. -/
theorem TaskEffects.filed {t : Task} {v v' : View} (hd : TaskEffects t v v') (hv : v.Filed) :
    v'.Filed := by
  refine hd.keep (K := View.Filed) (fun v₁ v₂ heffect h₁ => ?_) hv
  have hst := heffect.steady
  have hheld : ∀ pid h, v₂.cached.get? pid = some h →
      h < v₂.records.length ∧ (v₂.record h).pid = pid ∧ (v₂.record h).deleted = false := by
    intro pid h hc
    rw [hst.cached] at hc
    rw [hst.length, (hst.content h).pid, (hst.content h).deleted]
    exact h₁.held pid h hc
  cases heffect with
  | strike _ filing => exact filing.filed h₁
  | bind | serve | advance | revoke | retract | greet | greetEmpty =>
    exact ⟨hheld, h₁.titled, h₁.distinct⟩

namespace Session

/-! ### Tasks as sequences of effects -/

/-- A loop is a sequence of effects if every round of it is one, as long as what the rounds
rely on stays. -/
theorem foldl_taskEffects {α : Type} {t : Task} {K : View → Prop} {f : Session → α → Session}
    {l : List α}
    (hround : ∀ s a, a ∈ l → K s.view → TaskEffects t s.view (f s a).view ∧ K (f s a).view)
    (s : Session) (h : K s.view) : TaskEffects t s.view (l.foldl f s).view := by
  induction l generalizing s with
  | nil => exact .refl
  | cons a rest ih =>
    obtain ⟨hd, hK⟩ := hround s a List.mem_cons_self h
    exact hd.trans (ih (fun s' b hb => hround s' b (List.mem_cons_of_mem a hb)) (f s a) hK)

/-- What the rounds of a delivery rely on: the world, and the record but for its marks. -/
structure Settled (w : View) (h : Handle) (v : View) : Prop where
  directory : v.directory = w.directory
  access : v.access = w.access
  length : v.records.length = w.records.length
  content : (w.record h).SameContent (v.record h)
  owner : (v.record h).owner = (w.record h).owner

theorem Settled.targets {w v : View} {h : Handle} (hs : Settled w h v) :
    v.targets h = w.targets h := by
  unfold View.targets
  rw [hs.content.target, hs.directory]

theorem Settled.permits {w v : View} {h : Handle} (hs : Settled w h v) (location : String)
    (owner : Option String) : v.permits location owner = w.permits location owner :=
  View.permits_of_access hs.access location owner

theorem Settled.refl (w : View) (h : Handle) : Settled w h w := ⟨rfl, rfl, rfl, .refl _, rfl⟩

theorem Settled.mark {w v : View} {h : Handle} (hs : Settled w h v) {t : Target} {c : Consumer}
    {p : Option Properties} {o : Option Occasion} {f : Record → Record}
    (hc : ∀ r : Record, r.SameContent (f r)) (ho : ∀ r : Record, (f r).owner = r.owner) :
    Settled w h ((v.hear t c p o).change h f) where
  directory := hs.directory
  access := hs.access
  length := (View.length_change _ h f).trans hs.length
  content := hs.content.trans (((View.steady_hear t c p o).content h).trans
    ((View.steady_change hc (fun r o' h' => (ho r).trans h') h).content h))
  owner := by
    rw [View.record_change_of_eq _ ho]
    exact hs.owner

variable (s : Session)

/-- Before a record is served it is bound to the first of its targets. -/
theorem bindFirst_taskEffects {t : Task} {h : Handle} (hdel : (s.record h).deleted = false)
    (hmine : h ∈ t.records) :
    TaskEffects t s.view (s.bindFirst h (s.view.targets h)).view := by
  unfold bindFirst
  cases hl : s.view.targets h with
  | nil => exact .refl
  | cons c rest =>
    have hc : c ∈ s.view.targets h := by
      rw [hl]
      exact List.mem_cons_self
    simp only [view_bind]
    exact ReflTransGen.single (TaskEffect.bind hdel (Target.mem_resolve.mp hc).2.1 hmine)

/-- Binding leaves no record without an owner. -/
theorem owner_bind_ne {h : Handle} {location : String} {v : View} (hlt : h < v.records.length) :
    ((v.change h fun r => r.bind location).record h).owner ≠ none := by
  rw [View.record_change_self _ hlt, Record.owner_bind]
  exact Option.some_ne_none _

theorem bindFirst_owned {h : Handle} {c : Consumer} (hc : c ∈ s.view.targets h)
    (hlt : h < (s.bindFirst h (s.view.targets h)).view.records.length) :
    ((s.bindFirst h (s.view.targets h)).view.record h).owner ≠ none := by
  unfold bindFirst at hlt ⊢
  cases hl : s.view.targets h with
  | nil =>
    rw [hl] at hc
    exact absurd hc List.not_mem_nil
  | cons c' rest =>
    rw [hl] at hlt
    simp only [view_bind, View.length_change] at hlt ⊢
    exact owner_bind_ne hlt

theorem offer_taskEffects {w : View} {h : Handle} {g : Nat} {p : Properties} {c : Consumer}
    (hdel : (w.record h).deleted = false)
    (hown : h < w.records.length → (w.record h).owner ≠ none) (hc : c ∈ w.targets h)
    (hs : Settled w h s.view) :
    TaskEffects (.deliver h g p) s.view
        (s.offer h (w.record h).target (w.record h).owner g p c).view ∧
      Settled w h (s.offer h (w.record h).target (w.record h).owner g p c).view := by
  unfold offer
  split
  · exact ⟨.refl, hs⟩
  · next hseen =>
    split
    · next hperm =>
      simp only [view_serve]
      refine ⟨ReflTransGen.single ?_, hs.mark (fun r => r.sameContent_note _ _) (fun _ => rfl)⟩
      have hc' : c ∈ s.view.targets h := by
        rw [hs.targets]
        exact hc
      have hsees : s.view.MaySee h c := by
        refine ⟨hs.content.deleted.trans hdel, (Target.mem_resolve.mp hc').2.1, fun hlt => ?_,
          Or.inl ?_⟩
        · rw [hs.owner]
          exact hown (hs.length ▸ hlt)
        · rw [hs.owner]
          exact hperm
      have haddr : (w.record h).target = (Task.deliver h g p).address s.view h :=
        hs.content.target.symm
      rw [haddr]
      have hunseen : (s.view.record h).deliveredTo c.service.id g = false :=
        Bool.eq_false_iff.mpr hseen
      exact TaskEffect.serve hsees ⟨rfl, rfl, rfl, hc', hunseen⟩
    · exact ⟨.refl, hs⟩

theorem deliver_taskEffects (h : Handle) (g : Nat) (p : Properties) :
    TaskEffects (.deliver h g p) s.view (s.deliver h g p).view := by
  unfold deliver
  dsimp only
  split
  · exact .refl
  · next hdel =>
    split
    · exact .refl
    · have hdel' : (s.record h).deleted = false := by simpa using hdel
      -- the record is bound, then each target has its round, and then the generation counts
      have hbind := s.bindFirst_taskEffects (t := .deliver h g p) hdel' (List.mem_singleton_self h)
      refine hbind.trans ?_
      have hst := hbind.steady
      rw [view_change]
      refine ReflTransGen.tail ?_ TaskEffect.advance
      have hdel₁ := (hst.content h).deleted.trans hdel'
      have hloop : TaskEffects (.deliver h g p) (s.bindFirst h (s.view.targets h)).view
          ((s.view.targets h).foldl (fun s' c => s'.offer h
            ((s.bindFirst h (s.view.targets h)).view.record h).target
            ((s.bindFirst h (s.view.targets h)).view.record h).owner g p c)
            (s.bindFirst h (s.view.targets h))).view :=
        foldl_taskEffects (fun s' c hc hK => s'.offer_taskEffects hdel₁ (s.bindFirst_owned hc)
          ((hst.targets h).symm ▸ hc) hK) _ (.refl _ h)
      rw [(hst.content h).target] at hloop
      exact hloop

theorem reconsider_taskEffects {w : View} {h : Handle} {former : Option String} {c : Consumer}
    (hdel : (w.record h).deleted = false)
    (hown : h < w.records.length → (w.record h).owner ≠ none) (hc : c ∈ w.targets h)
    (hs : Settled w h s.view) :
    TaskEffects (.relocate h former) s.view
        (s.reconsider h (w.record h).target former (w.record h).owner c).view ∧
      Settled w h (s.reconsider h (w.record h).target former (w.record h).owner c).view := by
  have hc' : c ∈ s.view.targets h := by
    rw [hs.targets]
    exact hc
  have hdel' : (s.view.record h).deleted = false := hs.content.deleted.trans hdel
  have hperm : ∀ o, s.permits c.service.location o = s.view.permits c.service.location o :=
    fun _ => rfl
  unfold reconsider
  simp only [hperm]
  -- the owner that was read before the rounds is the owner still
  rw [← hs.owner]
  split
  · next hlost =>
    simp only [Bool.and_eq_true, Bool.not_eq_true'] at hlost
    rw [view_change, view_revoke, ← hs.content.target]
    exact ⟨ReflTransGen.single (TaskEffect.revoke hdel' hc' hlost.1 hlost.2),
      hs.mark (fun r => r.sameContent_forget _) (fun _ => rfl)⟩
  · split
    · next hgained =>
      simp only [Bool.and_eq_true, Bool.not_eq_true'] at hgained
      cases hp : (s.record h).properties with
      | none => exact ⟨.refl, hs⟩
      | some p =>
        simp only [view_serve]
        refine ⟨ReflTransGen.single ?_, hs.mark (fun r => r.sameContent_note _ _) (fun _ => rfl)⟩
        have haddr : (w.record h).target = (Task.relocate h former).address s.view h :=
          hs.content.target.symm
        rw [haddr]
        have hown' : h < s.view.records.length → (s.view.record h).owner ≠ none := fun hlt => by
          rw [hs.owner]
          exact hown (hs.length ▸ hlt)
        exact TaskEffect.serve ⟨hdel', (Target.mem_resolve.mp hc').2.1, hown', Or.inl hgained.2⟩
          ⟨rfl, rfl, hp, hc', hgained.1⟩
    · exact ⟨.refl, hs⟩

theorem relocate_taskEffects (h : Handle) (former : Option String) :
    TaskEffects (.relocate h former) s.view (s.relocate h former).view := by
  unfold relocate
  dsimp only
  split
  · exact .refl
  · next hdel =>
    have hdel' : (s.record h).deleted = false := by simpa using hdel
    have hbind := s.bindFirst_taskEffects (t := .relocate h former) hdel'
      (List.mem_singleton_self h)
    refine hbind.trans ?_
    have hst := hbind.steady
    have hdel₁ := (hst.content h).deleted.trans hdel'
    have hloop : TaskEffects (.relocate h former) (s.bindFirst h (s.view.targets h)).view
        ((s.view.targets h).foldl (fun s' c => s'.reconsider h
          ((s.bindFirst h (s.view.targets h)).view.record h).target former
          ((s.bindFirst h (s.view.targets h)).view.record h).owner c)
          (s.bindFirst h (s.view.targets h))).view :=
      foldl_taskEffects (fun s' c hc hK => s'.reconsider_taskEffects hdel₁ (s.bindFirst_owned hc)
        ((hst.targets h).symm ▸ hc) hK) _ (.refl _ h)
    rw [(hst.content h).target] at hloop
    exact hloop

/-- Striking a deleted record off its roster. -/
theorem filings_taskEffects {v v' : View} {h : Handle} {owner : Option String} {f : String}
    (hf : (v.record h).factoryPid = some f)
    (hfil : ReflTransGen (View.Filing fun f' pid => f' = f ∧ pid = (v.record h).pid) v v') :
    TaskEffects (.retract h owner) v v' ∧ v'.records = v.records := by
  induction hfil with
  | refl => exact ⟨.refl, rfl⟩
  | @tail v₁ v₂ _ hlast ih =>
    obtain ⟨hd, hr⟩ := ih
    have hrec : v₁.record h = v.record h := by
      unfold View.record
      rw [hr]
    refine ⟨hd.tail (.strike (hrec ▸ hf) (hrec ▸ hlast)), ?_⟩
    obtain ⟨rosters, rfl⟩ := hlast.exists_rosters
    exact hr

theorem retractFrom_taskEffects {w : View} {h : Handle} {c : Consumer} (owner : Option String)
    (hc : c ∈ w.targets h) (hs : Settled w h s.view) :
    TaskEffects (.retract h owner) s.view (s.retractFrom h (w.record h).target owner c).view ∧
      Settled w h (s.retractFrom h (w.record h).target owner c).view := by
  unfold retractFrom
  split
  · next hperm =>
    have hc' : c ∈ s.view.targets h := by
      rw [hs.targets]
      exact hc
    have htgt : (w.record h).target = (s.view.record h).target := hs.content.target.symm
    rw [view_revoke, htgt]
    exact ⟨ReflTransGen.single (TaskEffect.retract hc' hperm), hs.directory, hs.access, hs.length,
      hs.content, hs.owner⟩
  · exact ⟨.refl, hs⟩

theorem expel_taskEffects {h : Handle} {f : String} (owner : Option String)
    (hf : (s.record h).factoryPid = some f) :
    TaskEffects (.retract h owner) s.view (s.expel (s.record h).pid f).view :=
  (filings_taskEffects (v := s.view) (h := h) hf (expel_filing (s.record h).pid f)).1

theorem retract_taskEffects (h : Handle) (owner : Option String) :
    TaskEffects (.retract h owner) s.view (s.retract h owner).view := by
  have hloop : TaskEffects (.retract h owner) s.view
      ((s.view.targets h).foldl (fun s' c => s'.retractFrom h (s.record h).target owner c)
        s).view :=
    foldl_taskEffects (K := Settled s.view h)
      (fun s' c hc hK => s'.retractFrom_taskEffects owner hc hK) s (.refl _ h)
  unfold retract
  simp only
  have hsame := hloop.steady.content h
  split
  · next f hf =>
    refine hloop.trans ?_
    have hd := expel_taskEffects _ owner (hsame.factoryPid.trans hf)
    have hpid : (((s.view.targets h).foldl (fun s' c =>
        s'.retractFrom h (s.record h).target owner c) s).record h).pid = (s.record h).pid :=
      hsame.pid
    rw [hpid] at hd
    exact hd
  · exact hloop

/-- Who may see a record that it is about to be served: an owner that was there decides, and a
record without one now belongs to the location of the consumer. -/
theorem maySee_bind {h : Handle} {c : Consumer} (hdel : (s.record h).deleted = false)
    (hlive : s.directory.isLive c.service = true)
    (hperm : s.permits c.service.location (s.record h).owner = true) :
    (s.bind h c.service.location).view.MaySee h c := by
  rw [view_bind]
  refine ⟨?_, hlive, fun hlt => owner_bind_ne (s.view.length_change h _ ▸ hlt), ?_⟩
  · rw [View.record_change_of_eq (q := Record.deleted) _ fun r => (r.sameContent_bind _).deleted]
    exact hdel
  · rw [View.record_change]
    split
    · rw [record_view, Record.owner_bind]
      cases ho : (s.record h).owner with
      | some o =>
        rw [ho] at hperm
        exact Or.inl hperm
      | none => exact Or.inr rfl
    · exact Or.inl hperm

theorem introduce_taskEffects {t : Task} {h : Handle} {c : Consumer} {g : Nat} {p : Properties}
    (hlive : s.directory.isLive c.service = true) (hmine : h ∈ t.records)
    (hbrings : ∀ v : View, (v.record h).deliveredTo c.service.id g = false → t.Brings v h c g p) :
    TaskEffects t s.view (s.introduce h (t.address s.view h) c g p).view := by
  unfold introduce
  dsimp only
  split
  · exact .refl
  · next hdel =>
    split
    · exact .refl
    · next hseen =>
      split
      · next hperm =>
        have hdel' : (s.record h).deleted = false := by simpa using hdel
        have hbind : TaskEffect t s.view (s.bind h c.service.location).view := by
          rw [view_bind]
          exact TaskEffect.bind hdel' hlive hmine
        refine (ReflTransGen.single hbind).trans (ReflTransGen.single ?_)
        rw [view_serve]
        have haddr : t.address s.view h = t.address (s.bind h c.service.location).view h := by
          cases t with
          | attach => rfl
          | deliver | retract | relocate | attachFactory =>
            exact (hbind.steady.content h).target.symm
        rw [haddr]
        have hunseen : ((s.bind h c.service.location).view.record h).deliveredTo
            c.service.id g = false := by
          rw [view_bind, View.record_change_of_eq _ (q := fun r => r.deliveredTo c.service.id g)
            (fun r => by unfold Record.deliveredTo; rw [r.watermark?_bind])]
          exact Bool.eq_false_iff.mpr hseen
        exact TaskEffect.serve (s.maySee_bind hdel' hlive hperm) (hbrings _ hunseen)
      · exact .refl

theorem introduceEmpty_taskEffects (h : Handle) (pid : String) (c : Consumer) (g : Nat)
    (hlive : s.directory.isLive c.service = true) :
    TaskEffects (.attach c pid (some ⟨h, none, g⟩)) s.view (s.introduceEmpty h pid c).view := by
  unfold introduceEmpty
  dsimp only
  split
  · exact .refl
  · next hdel =>
    split
    · next hperm =>
      have hdel' : (s.record h).deleted = false := by simpa using hdel
      have hbind : TaskEffect (.attach c pid (some ⟨h, none, g⟩)) s.view
          (s.bind h c.service.location).view := by
        rw [view_bind]
        exact TaskEffect.bind hdel' hlive (List.mem_singleton_self h)
      refine (ReflTransGen.single hbind).trans (ReflTransGen.single ?_)
      rw [view_greet]
      exact TaskEffect.greetEmpty (s.maySee_bind hdel' hlive hperm)
    · exact .refl

theorem attach_taskEffects (c : Consumer) (pid : String) (snapshot : Option Snapshot) :
    TaskEffects (.attach c pid snapshot) s.view (s.attach c pid snapshot).view := by
  unfold attach
  split
  · exact .refl
  · next hlive =>
    have hlive' : s.directory.isLive c.service = true := by simpa using hlive
    match snapshot with
    | none =>
      dsimp only
      rw [view_greet]
      exact ReflTransGen.single (TaskEffect.greet hlive')
    | some ⟨h, some p, g⟩ =>
      exact s.introduce_taskEffects (t := .attach c pid (some ⟨h, some p, g⟩)) hlive'
        (List.mem_singleton_self h) fun v hunseen => ⟨rfl, rfl, hunseen⟩
    | some ⟨h, none, g⟩ => exact s.introduceEmpty_taskEffects h pid c g hlive'

theorem attachMember_taskEffects {c : Consumer} {f : String} {members : List Snapshot}
    {m : Snapshot}
    (hm : m ∈ members) (hlive : s.directory.isLive c.service = true) :
    TaskEffects (.attachFactory c f members) s.view (s.attachMember c m).view := by
  unfold attachMember
  split
  · next p hp =>
    refine s.introduce_taskEffects (t := .attachFactory c f members) hlive (List.mem_map_of_mem hm)
      fun v hunseen => ⟨rfl, ?_, hunseen⟩
    rw [← hp]
    exact hm
  · exact .refl

theorem attachFactory_taskEffects (c : Consumer) (f : String) (members : List Snapshot) :
    TaskEffects (.attachFactory c f members) s.view (s.attachFactory c members).view := by
  unfold attachFactory
  split
  · exact .refl
  · next hlive =>
    have hlive' : s.directory.isLive c.service = true := by simpa using hlive
    refine foldl_taskEffects (K := fun v => v.directory.isLive c.service = true)
      (fun s' m hm hK => ?_) s hlive'
    have hmember := s'.attachMember_taskEffects (f := f) hm hK
    refine ⟨hmember, ?_⟩
    rw [hmember.steady.directory]
    exact hK

/-- **A task has no other effects.** -/
theorem perform_taskEffects (t : Task) : TaskEffects t s.view (s.perform t).view := by
  cases t with
  | deliver h g p => exact s.deliver_taskEffects h g p
  | retract h owner => exact s.retract_taskEffects h owner
  | relocate h former => exact s.relocate_taskEffects h former
  | attach c pid snapshot => exact s.attach_taskEffects c pid snapshot
  | attachFactory c f members => exact s.attachFactory_taskEffects c f members

end Session
end Provisioning
