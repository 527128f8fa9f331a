import Provisioning.Proofs.Pledges

/-! # Promises are kept by the hooks

A provider that is uninstalled gives records free, which is a change of their owner like any
other.  A consumer that went away is forgotten, and nobody who is still there has its number.  A
new consumer owes the session nothing and is owed everything: it starts with all its identities
outstanding, and each greeting settles one of them.
-/
namespace Provisioning

open Relation (ReflTransGen)

namespace View

variable {H : History} {owed owed' : Consumer → String → Prop}
variable {late : Handle → Consumer → List Call → Prop}
variable {v v' : View} {h : Handle} {c : Consumer}

theorem change_of_length_le (hge : v.records.length ≤ h) (f : Record → Record) :
    v.change h f = v := by
  unfold change
  rw [show v.records.modify h f = v.records from List.modify_eq_self hge]

/-! ### Providers that are gone -/

theorem lt_of_isBoundTo {location : String} (hb : (v.record h).isBoundTo location = true) :
    h < v.records.length := by
  by_contra hge
  rw [record_of_length_le (Nat.le_of_not_lt hge)] at hb
  cases hb

theorem Pledge.release {location : String} (hv : v.Pledge H owed late)
    (hr : Release location v v') : ∃ H', v'.Pledge H' owed late := by
  cases hr with
  | @release h bound =>
    have hlt := lt_of_isBoundTo bound
    have hfiled : (v.change h fun r => r.release location).Filed :=
      hv.filed.change (fun r => by rw [r.release_eq]) (fun r => by rw [r.release_eq]) h
    have hmid : (v.change h fun r => r.release location).Orderly
        (H.revise h ((v.record h).release location)) := by
      refine hv.amend (f := fun r => r.release location) hlt (Record.revised_release _ _)
        (fun _ _ hc => hc) hfiled fun f hf hp hk => hv.listed h f hk hf ?_
      rw [Record.release_eq] at hp
      exact hp
    have ha := (Amends.change hlt fun r => r.release location).enqueue
      (.relocate h (some location))
    have hr : Rehomes h (fun r => r.release location) v _ :=
      { ha with
        inRange := hlt
        revised := (v.record h).revised_release location
        properties := by rw [Record.release_eq]
        marks := fun c _ _ => by
          rw [ha.mark?, Record.release_eq]
          rfl
        owner := Or.inr (Or.inr ⟨location, Record.owner_of_isBoundTo _ bound,
          mem_enqueue (v := v.change h fun r => r.release location) hv.accepting _⟩) }
    exact ⟨_, hr.pledge hv (hmid.relocate_fits (v.length_change h _ ▸ hlt))⟩

/-! ### Consumers that are gone -/

theorem Pledge.forgets {service : Nat} (hv : v.Pledge H owed late)
    (hdead : ∀ c ∈ v.directory.consumers, v.directory.isLive c.service = true →
      c.service.id ≠ service) (ho : Forgets service v v') : ∃ H', v'.Pledge H' owed late := by
  cases ho with
  | @forget h =>
    by_cases hlt : h < v.records.length
    · have hf := (v.record h).revised_forget service
      have hmid : (v.change h fun r => r.forget service).Orderly
          (H.revise h ((v.record h).forget service)) :=
        hv.amend (f := fun r => r.forget service) hlt hf (fun _ _ hc => hc)
          (hv.filed.change (f := fun r => r.forget service) (fun _ => rfl) (fun _ => rfl) h)
          fun f hfac hp hk => hv.listed h f hk hfac hp
      have ha := Amends.change hlt fun r => r.forget service
      have hr : Rehomes h (fun r => r.forget service) v _ :=
        { ha with
          inRange := hlt
          revised := hf
          properties := rfl
          marks := fun c hc hl => by
            rw [ha.mark?, Record.watermark?_forget, if_neg (hdead c hc hl)]
            rfl
          owner := Or.inl rfl }
      exact ⟨_, hr.pledge hv hmid⟩
    · rw [change_of_length_le (Nat.le_of_not_lt hlt)]
      exact ⟨H, hv⟩

/-! ### The directory goes on -/

theorem Pledge.directory (hv : v.Pledge H owed late) {d : Directory}
    (hd : v.directory.Continues d) (hk : d.WellKept)
    (hnew : ∀ c ∈ d.consumers, c ∈ v.directory.consumers ∨
      (v.directory.registrations < c.service.id ∧ ∀ i ∈ c.service.pids, owed' c i))
    (howed : ∀ c i, owed c i → owed' c i) :
    ({ v with directory := d } : View).Pledge H owed' late := by
  have hgrows : Grows H H v { v with directory := d } :=
    ⟨Nat.le_refl _, fun _ _ => Or.inl ⟨rfl, rfl⟩, fun _ _ _ => rfl, fun _ _ => ⟨rfl, rfl⟩,
      fun _ _ => rfl, fun _ hd => hd,
      fun i hi => by
        rw [show ({ v with directory := d } : View).record i = v.record i from rfl,
          record_of_length_le hi]
        exact ⟨rfl, rfl⟩,
      fun _ _ _ hw => hw, hd.consumers, hd.registrations, rfl, rfl, rfl, rfl⟩
  have ho := hv.toOrderly.grows hgrows ⟨hv.filed.held, hv.filed.titled, hv.filed.distinct⟩ hk
    hv.listed hv.unfading
  -- a new consumer has taken nothing, and was never called
  have hmark : ∀ i c, v.directory.registrations < c.service.id → v.mark? i c = none := by
    intro i c hid
    by_contra hne
    obtain ⟨w, hw⟩ := Option.ne_none_iff_exists'.mp hne
    have := (hv.marked i _ w hw).2.1
    omega
  have htarget : ∀ i c, c ∈ ({ v with directory := d } : View).targets i →
      c ∈ v.targets i ∨ (v.directory.registrations < c.service.id ∧
        owed' c (v.record i).target.identity) := by
    intro i c hc
    obtain ⟨hmem, hl, hkind, hp⟩ := Target.mem_resolve.mp hc
    rcases hnew c hmem with hold | ⟨hid, hall⟩
    · exact Or.inl (Target.mem_resolve.mpr ⟨hold, hd.live c hold hl, hkind, hp⟩)
    · exact Or.inr ⟨hid, hall _ hp⟩
  refine ⟨ho, fun i c hk hc hperm hp hnot => ?_, fun i c hk hc => ?_, fun i c hk hc hl => ?_⟩
  · rcases htarget i c hc with hold | ⟨-, howes⟩
    · exact hv.promised i c hk hold hperm hp fun hx => hnot (howed _ _ hx)
    · exact absurd howes hnot
  · rcases htarget i c hc with hold | ⟨hid, -⟩
    · exact hv.withheld i c hk hold
    · exact Or.inl (Or.inl (hmark i c hid))
  · rcases hnew c hc with hold | ⟨hid, -⟩
    · obtain ⟨hun, hmk⟩ := hv.heard i c hk hold (hd.live c hold hl)
      exact ⟨hun, hmk⟩
    · refine ⟨fun _ k hlast => ?_, fun w hw => ?_⟩
      · -- every callback so far was to a consumer of an older number
        obtain ⟨hmem, hab⟩ := List.mem_filter.mp (List.mem_of_getLast? hlast)
        have hold := (hv.called k hmem).1
        rw [(Call.isAbout_iff.mp hab).1] at hold
        have := hv.wellKept.id_le hold
        omega
      · have hw' : v.mark? i c = some w := hw
        rw [hmark i c hid] at hw'
        cases hw'

/-! ### Greetings -/

theorem spares_enqueue (t : Task) : Spares h v (v.enqueue t) := by
  rw [enqueue_eq]
  refine ⟨rfl, id, rfl, rfl, rfl, fun t' ht => ?_⟩
  show t' ∈ if v.accepting then v.waiting ++ [t] else v.waiting
  split
  · exact List.mem_append_left _ ht
  · exact ht

/-- What a greeting is about is promised by it. -/
theorem Greeting.promises {identity : String} (hv : v.Orderly H)
    (hg : Greeting c identity v v') (hk : v.Known h) (hc : c ∈ v.targets h)
    (hi : (v.record h).target.identity = identity) (hp : (v.record h).properties ≠ none) :
    ∃ t ∈ v'.waiting, t.Promises H v h c := by
  obtain ⟨p, hprop⟩ := Option.ne_none_iff_exists'.mp hp
  have hlasts := hv.lasts_counter (hv.known_lt hk)
  have hof : Snapshot.of h (v.record h) = ⟨h, some p, (v.record h).counter⟩ := by
    unfold Snapshot.of
    rw [hprop]
  have hkind := (Target.mem_resolve.mp hc).2.2.1
  unfold Record.target Target.of at hi hkind
  cases hf : (v.record h).factoryPid with
  | none =>
    -- the snapshot was taken of the cached record of the pid
    rw [hf] at hi hkind
    have hpid : (v.record h).pid = identity := hi
    cases hg with
    | single =>
      refine ⟨_, mem_enqueue hv.accepting _, rfl, p, (v.record h).counter, ?_, hlasts⟩
      have hcached : v.cached.get? identity = some h := hpid ▸ hk
      rw [hcached, Option.map_some, hof]
    | members kind =>
      rw [kind] at hkind
      cases hkind
    | unlisted kind =>
      rw [kind] at hkind
      cases hkind
  | some f =>
    -- a member with properties is listed, and all that is listed was called
    rw [hf] at hi hkind
    have hfac : f = identity := hi
    subst hfac
    have hlisted := hv.listed h f hk hf hp
    cases hg with
    | single kind =>
      rw [kind] at hkind
      cases hkind
    | members _ _ complete =>
      refine ⟨_, mem_enqueue hv.accepting _, rfl, p, (v.record h).counter, ?_, hlasts⟩
      rw [← hof]
      exact complete _ h hlisted hk hf hp
    | unlisted _ unknown =>
      unfold lists at hlisted
      rw [unknown] at hlisted
      cases hlisted

theorem Orderly.greeting {identity : String} (hv : v.Orderly H) (hg : Greeting c identity v v')
    (hc : c ∈ v.directory.consumers) : v'.Orderly H := by
  have hrecalls : ∀ pid i, v.cached.get? pid = some i →
      v.Recalls H (.of i (v.record i)) := by
    intro pid i hi
    have hlt := (hv.filed.held pid i hi).1
    exact ⟨hlt, Nat.le_refl _, hv.current i hlt⟩
  cases hg with
  | single kind =>
    refine hv.enqueue_quiet ⟨fun m hm => ?_, hc, kind⟩ (fun _ _ _ he => by cases he)
      fun _ _ he => by cases he
    obtain ⟨i, hi, rfl⟩ := Option.map_eq_some_iff.mp (Option.mem_toList.mp hm)
    exact hrecalls _ i hi
  | members kind sound =>
    refine hv.enqueue_quiet ⟨fun m hm => ?_, hc, kind, fun m hm => ?_⟩
      (fun _ _ _ he => by cases he) fun _ _ he => by cases he
    · obtain ⟨pid, i, hi, rfl, -⟩ := sound m hm
      exact hrecalls pid i hi
    · obtain ⟨pid, i, hi, rfl, hf⟩ := sound m hm
      exact hf
  | unlisted => exact hv

/-- **Each greeting settles what the consumer is owed under one identity.** -/
theorem Pledge.greeting {identity : String} (hv : v.Pledge H owed late)
    (hg : Greeting c identity v v') (hc : c ∈ v.directory.consumers)
    (howed : ∀ c' i, owed c' i → (c' = c ∧ i = identity) ∨ owed' c' i) :
    v'.Pledge H owed' late := by
  have hspares : ∀ i, Spares i v v' := by
    intro i
    cases hg with
    | single | members => exact spares_enqueue _
    | unlisted => exact ⟨rfl, id, rfl, rfl, rfl, fun _ ht => ht⟩
  refine ⟨hv.toOrderly.greeting hg hc, fun i c' => ?_,
    fun i c' => (hspares i).withheld (hv.withheld i c'), fun i c' hk hc' hl => ?_⟩
  · have hs := hspares i
    by_cases hx : owed c' (v.record i).target.identity
    · rcases howed _ _ hx with ⟨rfl, hi⟩ | hx'
      · intro hk hc' _ hp _
        rw [hs.targets] at hc'
        rw [hs.record] at hp
        obtain ⟨t, ht, hpr⟩ := hg.promises hv.toOrderly (hs.known hk) hc' hi hp
        exact Or.inr ⟨t, ht, hpr.mono (hs.permits _) fun _ => hs.lasts fun _ => rfl⟩
      · intro _ _ _ _ hnot
        rw [hs.record] at hnot
        exact absurd hx' hnot
    · exact hs.promised (fun _ => rfl) fun hk hc' hperm hp _ => hv.promised i c' hk hc' hperm hp hx
  · have hs := hspares i
    rw [hs.directory] at hc' hl
    exact hs.heard (fun _ => rfl) (hv.heard i c' (hs.known hk) hc' hl)

theorem Pledge.owed_mono (hv : v.Pledge H owed late) (howed : ∀ c i, owed c i → owed' c i) :
    v.Pledge H owed' late :=
  { hv with
    promised := fun i c hk hc hperm hp hnot =>
      hv.promised i c hk hc hperm hp fun hx => hnot (howed _ _ hx) }

/-- **The greetings settle everything that a new consumer is owed.** -/
theorem Pledge.greetings {identities : List String}
    (hg : Greetings (Record.Admissible fun _ _ => True) c identities v v')
    (hc : c ∈ v.directory.consumers)
    (hv : v.Pledge H (fun c' i => c' = c ∧ i ∈ identities) late) :
    v'.Pledge H (fun _ _ => False) late := by
  induction hg with
  | done => exact hv.owed_mono fun c' i hx => absurd hx.2 List.not_mem_nil
  | @next v v₁ v₂ v₃ identity rest hl hgreet _ ih =>
    have hv₁ := hv.lookups (fun _ _ _ => trivial) hl
    have hc₁ : c ∈ v₁.directory.consumers := by
      rw [hl.extends.directory]
      exact hc
    have hc₂ : c ∈ v₂.directory.consumers := by
      cases hgreet with
      | single | members =>
        rw [enqueue_eq]
        exact hc₁
      | unlisted => exact hc₁
    refine ih hc₂ (hv₁.greeting hgreet hc₁ ?_)
    rintro c' i ⟨rfl, hi⟩
    rcases List.mem_cons.mp hi with rfl | hi
    · exact Or.inl ⟨rfl, rfl⟩
    · exact Or.inr ⟨rfl, hi⟩

end View
end Provisioning
