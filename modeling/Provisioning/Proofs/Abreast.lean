import Provisioning.Proofs.Authenticity
import Provisioning.Proofs.Shares

/-! # Work for a pid, and other work

A task that speaks of no record of a pid leaves the share of the pid alone, and makes no call on
behalf of it (`TaskEffects.share`, `TaskEffects.voices`).

A task that speaks of a record of the pid does the same in two sessions with the same share
(`Abreast.perform`): whatever it looks at, the record and the consumers of its target, is in the
share, and so is whatever it writes.  The sessions have the same share again then, and the same
calls were made.  Only the handles differ, under which the record is known in the two sessions.
-/
namespace Provisioning

/-- An occasion without the handle of its record. -/
def Occasion.unnumbered (o : Occasion) : Occasion := { o with record := 0 }

/-- A call without the handle of its record. -/
def Call.unnumbered (k : Call) : Call :=
  { k with occasion := k.occasion.map Occasion.unnumbered }

/-- Whether a call is made on behalf of a pid.  A call that speaks of no record is the greeting
under some pid. -/
def Call.isFor (p : String) (greeted : Option String) (k : Call) : Bool :=
  match k.occasion with
  | some o => o.standing.pid == p
  | none => greeted == some p

namespace Task

/-- The pid under which a task greets a consumer. -/
def greets? : Task → Option String
  | .attach _ pid _ => some pid
  | _ => none

/-- What a task may call about: its records, or nothing, if it is a greeting without one. -/
def Voices (v : View) (t : Task) (k : Call) : Prop :=
  match k.occasion with
  | some o => o.record ∈ t.records ∧ o.standing.pid = (v.record o.record).pid
  | none => ∃ c pid, t = .attach c pid none

variable {p : String} {v : View} {t : Task} {k : Call}

/-- A task speaks of records of a pid only, and greets under no other. -/
structure About (p : String) (v : View) (t : Task) : Prop where
  records : ∀ h ∈ t.records, (v.record h).pid = p
  greets : ∀ c pid, t = .attach c pid none → pid = p

/-- A task speaks of records of other pids only, and does not greet under this one. -/
structure Beside (p : String) (v : View) (t : Task) : Prop where
  records : ∀ h ∈ t.records, h < v.records.length ∧ (v.record h).pid ≠ p
  greets : ∀ c pid, t = .attach c pid none → pid ≠ p

theorem About.isFor (ht : t.About p v) (hk : t.Voices v k) : k.isFor p t.greets? = true := by
  unfold Voices at hk
  unfold Call.isFor
  split at hk
  · next o =>
    rw [beq_iff_eq, hk.2]
    exact ht.records _ hk.1
  · obtain ⟨c, pid, rfl⟩ := hk
    rw [ht.greets c pid rfl]
    exact beq_self_eq_true _

theorem Beside.not_isFor (ht : t.Beside p v) (hk : t.Voices v k) :
    k.isFor p t.greets? = false := by
  unfold Voices at hk
  unfold Call.isFor
  split at hk
  · next o =>
    rw [beq_eq_false_iff_ne, hk.2]
    exact (ht.records _ hk.1).2
  · obtain ⟨c, pid, rfl⟩ := hk
    rw [beq_eq_false_iff_ne]
    exact fun he => ht.greets c pid rfl (Option.some.inj he)

/-- A task speaks of records that are there, and a first delivery of records of the pid, or of
members of the factory, that it is addressed to. -/
structure Named (v : View) (t : Task) : Prop where
  bounded : ∀ h ∈ t.records, h < v.records.length
  single : ∀ c pid m, t = .attach c pid (some m) → (v.record m.record).pid = pid
  members : ∀ c f ms, t = .attachFactory c f ms →
    ∀ m ∈ ms, (v.record m.record).factoryPid = some f

end Task

/-- Calls are made about the records that a task speaks of. -/
theorem TaskEffect.voices {t : Task} {v v' : View} (hd : TaskEffect t v v') :
    ∃ new, v'.calls = v.calls ++ new ∧ ∀ k ∈ new, t.Voices v k := by
  have hnone : ∀ {u : View}, u.calls = v.calls →
      ∃ new, u.calls = v.calls ++ new ∧ ∀ k ∈ new, t.Voices v k := fun hu =>
    ⟨[], hu.trans (List.append_nil _).symm, fun _ hk => absurd hk List.not_mem_nil⟩
  have hear : ∀ {target : Target} {c : Consumer} {q : Option Properties} {o : Option Occasion},
      (∀ k : Call, k.occasion = o → t.Voices v k) →
        ∃ new, (v.hear target c q o).calls = v.calls ++ new ∧ ∀ k ∈ new, t.Voices v k := by
    intro target c q o ho
    refine ⟨_, rfl, fun k hk => ?_⟩
    obtain ⟨m, -, rfl⟩ := Option.map_eq_some_iff.mp (Option.mem_toList.mp hk)
    exact ho _ rfl
  have habout : ∀ {h : Handle} {g : Option (Properties × Nat)}, h ∈ t.records →
      ∀ k : Call, k.occasion = some ⟨h, v.record h, g⟩ → t.Voices v k := by
    intro h g hm k hk
    unfold Task.Voices
    rw [hk]
    exact ⟨hm, rfl⟩
  cases hd with
  | bind => exact hnone rfl
  | advance => exact hnone rfl
  | strike _ filing =>
    obtain ⟨rosters, rfl⟩ := filing.exists_rosters
    exact hnone rfl
  | serve _ brings => exact hear (habout brings.mem_records)
  | revoke | retract | greetEmpty => exact hear (habout (List.mem_singleton_self _))
  | greet =>
    refine hear fun k hk => ?_
    unfold Task.Voices
    rw [hk]
    exact ⟨_, _, rfl⟩

namespace TaskEffects

variable {p : String} {t : Task} {v v' : View}

theorem voices (hd : TaskEffects t v v') :
    ∃ new, v'.calls = v.calls ++ new ∧ ∀ k ∈ new, t.Voices v k := by
  induction hd with
  | refl => exact ⟨[], (List.append_nil _).symm, fun _ hk => absurd hk List.not_mem_nil⟩
  | @tail v₁ v₂ hbefore hlast ih =>
    obtain ⟨new, hnew, hall⟩ := ih
    obtain ⟨more, hmore, hlater⟩ := hlast.voices
    refine ⟨new ++ more, by rw [hmore, hnew, List.append_assoc], fun k hk => ?_⟩
    rcases List.mem_append.mp hk with hk | hk
    · exact hall k hk
    · -- pids have not changed since
      have hsaid := hlater k hk
      unfold Task.Voices at hsaid ⊢
      split
      · next o ho =>
        rw [ho] at hsaid
        exact ⟨hsaid.1, hsaid.2.trans ((TaskEffects.steady hbefore).content _).pid⟩
      · next ho =>
        rw [ho] at hsaid
        exact hsaid

/-- Records are neither added nor renamed. -/
theorem pids (hd : TaskEffects t v v') : v'.pids = v.pids := by
  have hlen := hd.steady.length
  refine List.ext_getElem? fun i => ?_
  rcases Nat.lt_or_ge i v.records.length with hlt | hge
  · rw [v.pids_getElem? hlt, v'.pids_getElem? (hlen ▸ hlt), (hd.steady.content i).pid]
  · rw [View.pids, View.pids, List.getElem?_eq_none (by rw [List.length_map, hlen]; exact hge),
      List.getElem?_eq_none (by rw [List.length_map]; exact hge)]

/-- **Other work leaves the share of a pid alone.** -/
theorem share (hd : TaskEffects t v v') (ht : t.Beside p v) : v'.share p = v.share p := by
  suffices hall : v'.share p = v.share p ∧ v'.pids = v.pids from hall.1
  have hchange : ∀ {u : View} {h : Handle} {f : Record → Record}, (∀ r, (f r).pid = r.pid) →
      h ∈ t.records → u.share p = v.share p → u.pids = v.pids →
        (u.change h f).share p = v.share p ∧ (u.change h f).pids = v.pids := by
    intro u h f hf hm hs hpids
    obtain ⟨hlt, hne⟩ := ht.records h hm
    refine ⟨?_, (u.pids_change hf h).trans hpids⟩
    rw [u.share_change_of_ne hf (hpids ▸ v.pids_ne hne hlt), hs]
  refine View.keep_of_steps (K := fun u => u.share p = v.share p ∧ u.pids = v.pids)
    (fun v₁ v₂ hone ⟨hs, hpids⟩ => ?_) hd ⟨rfl, rfl⟩
  cases hone with
  | bind _ _ mine => exact hchange (fun r => (r.sameContent_bind _).pid) mine hs hpids
  | serve _ brings =>
    exact hchange (f := fun r => r.note _ _) (fun _ => rfl) brings.mem_records hs hpids
  | advance =>
    exact hchange (f := fun r => r.advance _) (fun _ => rfl) (List.mem_singleton_self _) hs hpids
  | revoke =>
    exact hchange (f := fun r => r.forget _) (fun _ => rfl) (List.mem_singleton_self _) hs hpids
  | strike _ filing =>
    obtain ⟨rosters, rfl⟩ := filing.exists_rosters
    exact ⟨hs, hpids⟩
  | retract | greet | greetEmpty => exact ⟨hs, hpids⟩

end TaskEffects

namespace Session

/-- Removing a pid from its factory touches the rosters alone. -/
theorem expel_view (s : Session) (pid f : String) :
    ∃ rosters, (s.expel pid f).view = { s.view with rosters } := by
  refine View.keep_of_steps (K := fun v => ∃ rosters, v = { s.view with rosters })
    (fun v v' hone hv => ?_) (expel_filing pid f) ⟨_, rfl⟩
  obtain ⟨rosters, rfl⟩ := hone.exists_rosters
  obtain ⟨_, rfl⟩ := hv
  exact ⟨rosters, rfl⟩

end Session

namespace View

variable {p : String} {v₀ w₀ v w : View} {h h' : Handle}

/-- The same task, for the same record of a pid in two sessions. -/
inductive TwinTasks (p : String) (v w : View) : Task → Task → Prop
  | deliver {h h' : Handle} (twins : Twins p v w h h') (g : Nat) (q : Properties) :
    TwinTasks p v w (.deliver h g q) (.deliver h' g q)
  | retract {h h' : Handle} (twins : Twins p v w h h') (owner : Option String) :
    TwinTasks p v w (.retract h owner) (.retract h' owner)
  | relocate {h h' : Handle} (twins : Twins p v w h h') (former : Option String) :
    TwinTasks p v w (.relocate h former) (.relocate h' former)
  | greet (c : Consumer) : TwinTasks p v w (.attach c p none) (.attach c p none)
  | attach {h h' : Handle} (twins : Twins p v w h h') (c : Consumer) (q : Option Properties)
    (g : Nat) : TwinTasks p v w (.attach c p (some ⟨h, q, g⟩)) (.attach c p (some ⟨h', q, g⟩))

section Tasks

variable {a b x : Task} {pids : List String}

/-- What a task was that is seen. -/
inductive SeenAs (p : String) (pids : List String) : Task → Task → Prop
  | deliver {h : Handle} {g : Nat} {q : Properties} {i : Nat} (own : pids[h]? = some p)
    (place : placeOf p pids h = i) : SeenAs p pids (.deliver h g q) (.deliver i g q)
  | retract {h : Handle} {owner : Option String} {i : Nat} (own : pids[h]? = some p)
    (place : placeOf p pids h = i) : SeenAs p pids (.retract h owner) (.retract i owner)
  | relocate {h : Handle} {former : Option String} {i : Nat} (own : pids[h]? = some p)
    (place : placeOf p pids h = i) : SeenAs p pids (.relocate h former) (.relocate i former)
  | attach {c : Consumer} {pid : String} {snapshot seen : Option Snapshot}
    (same : (if pid = p then snapshot.map fun m => { m with record := placeOf p pids m.record }
      else none) = seen) : SeenAs p pids (.attach c pid snapshot) (.attach c pid seen)
  | attachFactory {c : Consumer} {f : String} {members : List Snapshot} :
    SeenAs p pids (.attachFactory c f members) (.attachFactory c f [])

theorem seenAs (hs : a.seen p pids = some x) : SeenAs p pids a x := by
  cases a with
  | deliver h | retract h | relocate h =>
    simp only [Task.seen] at hs
    split at hs
    · next own =>
      cases hs
      constructor
      · exact own
      · rfl
    · cases hs
  | attach =>
    cases hs
    exact .attach rfl
  | attachFactory =>
    cases hs
    exact .attachFactory

/-- Work for the same record is work for the pid, in both sessions. -/
theorem TwinTasks.about (ht : TwinTasks p v w a b) :
    a.About p v ∧ b.About p w ∧ b.greets? = a.greets? := by
  have hone : ∀ {u : View} {h : Handle}, u.pids[h]? = some p → ∀ i ∈ [h], (u.record i).pid = p := by
    intro u h he i hi
    rw [List.mem_singleton.mp hi]
    exact (u.lt_of_pids he).2
  cases ht with
  | deliver twins | retract twins | relocate twins =>
    exact ⟨⟨hone twins.own, nofun⟩, ⟨hone twins.own', nofun⟩, rfl⟩
  | greet c =>
    have hgreet : ∀ u : View, Task.About p u (.attach c p none) := fun u =>
      ⟨fun h hm => absurd hm List.not_mem_nil, fun _ _ he => by cases he; rfl⟩
    exact ⟨hgreet v, hgreet w, rfl⟩
  | attach twins => exact ⟨⟨hone twins.own, nofun⟩, ⟨hone twins.own', nofun⟩, rfl⟩

/-- A task that is not seen is other work. -/
theorem beside_of_unseen (hn : a.Named v) (hs : a.seen p v.pids = none) : a.Beside p v := by
  cases a with
  | deliver h | retract h | relocate h =>
    refine ⟨fun i hi => ?_, fun _ _ he => by cases he⟩
    obtain rfl := List.mem_singleton.mp hi
    have hlt := hn.bounded i hi
    refine ⟨hlt, fun he => ?_⟩
    rw [Task.seen, v.pids_getElem? hlt, if_pos (congrArg some he)] at hs
    cases hs
  | attach | attachFactory => cases hs

/-- A first delivery under another pid is other work. -/
theorem beside_of_attach {c : Consumer} {pid : String} {snapshot : Option Snapshot}
    (hn : Task.Named v (.attach c pid snapshot)) (hne : pid ≠ p) :
    Task.Beside p v (.attach c pid snapshot) := by
  refine ⟨fun h hm => ⟨hn.bounded h hm, ?_⟩, fun _ _ he => by cases he; exact hne⟩
  cases snapshot with
  | none => exact absurd hm List.not_mem_nil
  | some m =>
    obtain rfl := List.mem_singleton.mp hm
    rw [hn.single c pid m rfl]
    exact hne

/-- The members of a factory are other records than those of a pid that is no member. -/
theorem beside_of_members {c : Consumer} {f : String} {members : List Snapshot}
    (hn : Task.Named v (.attachFactory c f members))
    (hv : ∀ h < v.records.length, (v.record h).pid = p → (v.record h).factoryPid = none) :
    Task.Beside p v (.attachFactory c f members) := by
  refine ⟨fun h hm => ⟨hn.bounded h hm, fun he => ?_⟩, nofun⟩
  obtain ⟨m, hmem, rfl⟩ := List.mem_map.mp hm
  have hnone := hv m.record (hn.bounded _ hm) he
  rw [hn.members c f members rfl m hmem] at hnone
  cases hnone

/-- **What is seen alike** in two sessions is the same work for the pid, or other work. -/
theorem twinTasks_or_beside (ha : a.Named v) (hb : b.Named w)
    (hv : ∀ h < v.records.length, (v.record h).pid = p → (v.record h).factoryPid = none)
    (hw : ∀ h < w.records.length, (w.record h).pid = p → (w.record h).factoryPid = none)
    (hs : a.seen p v.pids = some x) (hs' : b.seen p w.pids = some x) :
    TwinTasks p v w a b ∨ (a.Beside p v ∧ b.Beside p w) := by
  cases seenAs hs with
  | deliver own place =>
    cases seenAs hs' with
    | deliver own' place' => exact Or.inl (.deliver ⟨own, own', place'.trans place.symm⟩ _ _)
  | retract own place =>
    cases seenAs hs' with
    | retract own' place' => exact Or.inl (.retract ⟨own, own', place'.trans place.symm⟩ _)
  | relocate own place =>
    cases seenAs hs' with
    | relocate own' place' => exact Or.inl (.relocate ⟨own, own', place'.trans place.symm⟩ _)
  | @attach c pid snapshot seen same =>
    cases seenAs hs' with
    | @attach _ _ snapshot' _ same' =>
      by_cases hp : pid = p
      · left
        subst hp
        have hown : ∀ {u : View} {m : Snapshot}, Task.Named u (.attach c pid (some m)) →
            u.pids[m.record]? = some pid := by
          intro u m hn
          rw [u.pids_getElem? (hn.bounded _ (List.mem_singleton_self _)), hn.single c pid m rfl]
        rw [← same', if_pos rfl, if_pos rfl] at same
        cases snapshot with
        | none =>
          cases snapshot' with
          | none => exact .greet c
          | some m' => cases same
        | some m =>
          cases snapshot' with
          | none => cases same
          | some m' =>
            obtain ⟨h, q, g⟩ := m
            obtain ⟨h', q', g'⟩ := m'
            rw [Option.map_some, Option.map_some, Option.some.injEq, Snapshot.mk.injEq] at same
            obtain ⟨place, rfl, rfl⟩ := same
            exact .attach ⟨hown ha, hown hb, place.symm⟩ c q g
      · exact Or.inr ⟨beside_of_attach ha hp, beside_of_attach hb hp⟩
  | attachFactory =>
    cases seenAs hs' with
    | attachFactory => exact Or.inr ⟨beside_of_members ha hv, beside_of_members hb hw⟩

end Tasks

/-- Two views in the course of the same work, which began at the first two: they have the same
share of a pid still, no record came to them, and the same calls were made. -/
structure Abreast (p : String) (v₀ w₀ v w : View) : Prop where
  pids : v.pids = v₀.pids
  pids' : w.pids = w₀.pids
  share : w.share p = v.share p
  calls : ∃ new new', v.calls = v₀.calls ++ new ∧ w.calls = w₀.calls ++ new' ∧
    new'.map Call.unnumbered = new.map Call.unnumbered

namespace Abreast

theorem refl (hs : w.share p = v.share p) : Abreast p v w v w :=
  ⟨rfl, rfl, hs, [], [], (List.append_nil _).symm, (List.append_nil _).symm, rfl⟩

theorem twins (hk : Abreast p v₀ w₀ v w) (ht : Twins p v₀ w₀ h h') : Twins p v w h h' :=
  ⟨hk.pids ▸ ht.own, hk.pids' ▸ ht.own', by rw [hk.pids, hk.pids', ht.place]⟩

theorem record (hk : Abreast p v₀ w₀ v w) (ht : Twins p v₀ w₀ h h') : w.record h' = v.record h :=
  record_twins hk.share (hk.twins ht)

theorem directory (hk : Abreast p v₀ w₀ v w) : w.directory = v.directory :=
  congrArg Share.directory hk.share

theorem plugins (hk : Abreast p v₀ w₀ v w) : w.plugins = v.plugins :=
  congrArg Share.plugins hk.share

theorem permits (hk : Abreast p v₀ w₀ v w) (location : String) (owner : Option String) :
    w.permits location owner = v.permits location owner :=
  permits_of_access (congrArg Share.access hk.share) location owner

theorem change (hk : Abreast p v₀ w₀ v w) (ht : Twins p v₀ w₀ h h') {f : Record → Record}
    (hf : ∀ r, (f r).pid = r.pid) : Abreast p v₀ w₀ (v.change h f) (w.change h' f) where
  pids := (v.pids_change hf h).trans hk.pids
  pids' := (w.pids_change hf h').trans hk.pids'
  share := share_change_twins hk.share (hk.twins ht) hf
  calls := hk.calls

/-- The same call is made in both. -/
theorem hear (hk : Abreast p v₀ w₀ v w) (t : Target) (c : Consumer) (q : Option Properties)
    {o o' : Option Occasion} (ho : o'.map Occasion.unnumbered = o.map Occasion.unnumbered) :
    Abreast p v₀ w₀ (v.hear t c q o) (w.hear t c q o') where
  pids := hk.pids
  pids' := hk.pids'
  share := hk.share
  calls := by
    obtain ⟨new, new', hnew, hnew', hsame⟩ := hk.calls
    obtain ⟨said, hsaid⟩ : ∃ said : Option Occasion → List Call,
        said = fun o => ((t.call? c q).map fun m => ⟨c, m, o⟩).toList := ⟨_, rfl⟩
    refine ⟨new ++ said o, new' ++ said o', ?_, ?_, ?_⟩
    · rw [← List.append_assoc, ← hnew, hsaid]
      rfl
    · rw [← List.append_assoc, ← hnew', hsaid]
      rfl
    · rw [List.map_append, List.map_append, hsame, hsaid]
      cases t.call? c q with
      | none => rfl
      | some m => simp [Call.unnumbered, ho]

theorem hearAbout (hk : Abreast p v₀ w₀ v w) (ht : Twins p v₀ w₀ h h') (t : Target) (c : Consumer)
    (q : Option Properties) (g : Option (Properties × Nat)) :
    Abreast p v₀ w₀ (v.hear t c q (some ⟨h, v.record h, g⟩))
      (w.hear t c q (some ⟨h', w.record h', g⟩)) :=
  hk.hear t c q (by rw [hk.record ht]; rfl)

/-! ### Parts of tasks -/

open Session

variable {s t : Session}

theorem bind (hk : Abreast p v₀ w₀ s.view t.view) (ht : Twins p v₀ w₀ h h') (location : String) :
    Abreast p v₀ w₀ (s.bind h location).view (t.bind h' location).view := by
  rw [view_bind, view_bind]
  exact hk.change ht fun r => (r.sameContent_bind location).pid

theorem bindFirst (hk : Abreast p v₀ w₀ s.view t.view) (ht : Twins p v₀ w₀ h h')
    (targets : List Consumer) :
    Abreast p v₀ w₀ (s.bindFirst h targets).view (t.bindFirst h' targets).view := by
  cases targets with
  | nil => exact hk
  | cons c rest => exact hk.bind ht c.service.location

theorem serve (hk : Abreast p v₀ w₀ s.view t.view) (ht : Twins p v₀ w₀ h h') (target : Target)
    (c : Consumer) (g : Nat) (q : Properties) :
    Abreast p v₀ w₀ (s.serve h target c g q).view (t.serve h' target c g q).view := by
  have hplugins : t.plugins = s.plugins := hk.plugins
  rw [view_serve, view_serve, hplugins]
  exact (hk.hearAbout ht _ _ _ _).change ht fun _ => rfl

theorem revoke (hk : Abreast p v₀ w₀ s.view t.view) (ht : Twins p v₀ w₀ h h') (target : Target)
    (c : Consumer) : Abreast p v₀ w₀ (s.revoke h target c).view (t.revoke h' target c).view := by
  rw [view_revoke, view_revoke]
  exact hk.hearAbout ht target c none none

theorem foldl_of_rounds {α : Type} {f g : Session → α → Session}
    (hround : ∀ {s t : Session}, Abreast p v₀ w₀ s.view t.view → ∀ a,
      Abreast p v₀ w₀ (f s a).view (g t a).view) (hk : Abreast p v₀ w₀ s.view t.view) (l : List α) :
    Abreast p v₀ w₀ (l.foldl f s).view (l.foldl g t).view := by
  induction l generalizing s t with
  | nil => exact hk
  | cons a rest ih => exact ih (hround hk a)

theorem offer (hk : Abreast p v₀ w₀ s.view t.view) (ht : Twins p v₀ w₀ h h') (target : Target)
    (owner : Option String) (g : Nat) (q : Properties) (c : Consumer) :
    Abreast p v₀ w₀ (s.offer h target owner g q c).view (t.offer h' target owner g q c).view := by
  have hrecord : t.record h' = s.record h := hk.record ht
  have hpermits : t.permits c.service.location owner = s.permits c.service.location owner :=
    hk.permits _ _
  unfold Session.offer
  rw [hrecord, hpermits]
  split
  · exact hk
  · split
    · exact hk.serve ht target c g q
    · exact hk

theorem reconsider (hk : Abreast p v₀ w₀ s.view t.view) (ht : Twins p v₀ w₀ h h')
    (target : Target) (former owner : Option String) (c : Consumer) :
    Abreast p v₀ w₀ (s.reconsider h target former owner c).view
      (t.reconsider h' target former owner c).view := by
  have hrecord : t.record h' = s.record h := hk.record ht
  have hpermits : ∀ owner, t.permits c.service.location owner =
      s.permits c.service.location owner := hk.permits _
  unfold Session.reconsider
  simp only [hrecord, hpermits]
  split
  · rw [view_change, view_change]
    exact (hk.revoke ht target c).change ht fun _ => rfl
  · split
    · split
      · exact hk.serve ht target c _ _
      · exact hk
    · exact hk

theorem retractFrom (hk : Abreast p v₀ w₀ s.view t.view) (ht : Twins p v₀ w₀ h h')
    (target : Target) (owner : Option String) (c : Consumer) :
    Abreast p v₀ w₀ (s.retractFrom h target owner c).view
      (t.retractFrom h' target owner c).view := by
  have hpermits : t.permits c.service.location owner = s.permits c.service.location owner :=
    hk.permits _ _
  unfold Session.retractFrom
  rw [hpermits]
  split
  · exact hk.revoke ht target c
  · exact hk

/-! ### Tasks -/

theorem deliver (hk : Abreast p v₀ w₀ s.view t.view) (ht : Twins p v₀ w₀ h h') (g : Nat)
    (q : Properties) : Abreast p v₀ w₀ (s.deliver h g q).view (t.deliver h' g q).view := by
  have hrecord : t.record h' = s.record h := hk.record ht
  have hdirectory : t.directory = s.directory := hk.directory
  unfold Session.deliver
  simp only [hrecord, hdirectory]
  split
  · exact hk
  · split
    · exact hk
    · have hbound := hk.bindFirst ht ((s.record h).target.resolve s.directory)
      have howner : (t.bindFirst h' ((s.record h).target.resolve s.directory)).record h' =
          (s.bindFirst h ((s.record h).target.resolve s.directory)).record h := hbound.record ht
      rw [view_change, view_change, howner]
      exact (foldl_of_rounds (fun hk c => hk.offer ht _ _ g q c) hbound _).change ht fun _ => rfl

theorem relocate (hk : Abreast p v₀ w₀ s.view t.view) (ht : Twins p v₀ w₀ h h')
    (former : Option String) :
    Abreast p v₀ w₀ (s.relocate h former).view (t.relocate h' former).view := by
  have hrecord : t.record h' = s.record h := hk.record ht
  have hdirectory : t.directory = s.directory := hk.directory
  unfold Session.relocate
  simp only [hrecord, hdirectory]
  split
  · exact hk
  · have hbound := hk.bindFirst ht ((s.record h).target.resolve s.directory)
    have howner : (t.bindFirst h' ((s.record h).target.resolve s.directory)).record h' =
        (s.bindFirst h ((s.record h).target.resolve s.directory)).record h := hbound.record ht
    rw [howner]
    exact foldl_of_rounds (fun hk c => hk.reconsider ht _ former _ c) hbound _

theorem expel (hk : Abreast p v₀ w₀ s.view t.view) (pid f : String) :
    Abreast p v₀ w₀ (s.expel pid f).view (t.expel pid f).view := by
  obtain ⟨rosters, hs⟩ := s.expel_view pid f
  obtain ⟨rosters', ht⟩ := t.expel_view pid f
  rw [hs, ht]
  exact ⟨hk.pids, hk.pids', hk.share, hk.calls⟩

theorem retract (hk : Abreast p v₀ w₀ s.view t.view) (ht : Twins p v₀ w₀ h h')
    (owner : Option String) :
    Abreast p v₀ w₀ (s.retract h owner).view (t.retract h' owner).view := by
  have hrecord : t.record h' = s.record h := hk.record ht
  have hdirectory : t.directory = s.directory := hk.directory
  unfold Session.retract
  simp only [hrecord, hdirectory]
  have htold := foldl_of_rounds (fun hk c => hk.retractFrom ht (s.record h).target owner c) hk
    ((s.record h).target.resolve s.directory)
  split
  · exact htold.expel _ _
  · exact htold

theorem introduce (hk : Abreast p v₀ w₀ s.view t.view) (ht : Twins p v₀ w₀ h h')
    (target : Target) (c : Consumer) (g : Nat) (q : Properties) :
    Abreast p v₀ w₀ (s.introduce h target c g q).view (t.introduce h' target c g q).view := by
  have hrecord : t.record h' = s.record h := hk.record ht
  have hpermits : t.permits c.service.location (s.record h).owner =
      s.permits c.service.location (s.record h).owner := hk.permits _ _
  unfold Session.introduce
  simp only [hrecord, hpermits]
  split
  · exact hk
  · split
    · exact hk
    · split
      · exact (hk.bind ht _).serve ht target c g q
      · exact hk

theorem introduceEmpty (hk : Abreast p v₀ w₀ s.view t.view) (ht : Twins p v₀ w₀ h h')
    (pid : String) (c : Consumer) :
    Abreast p v₀ w₀ (s.introduceEmpty h pid c).view (t.introduceEmpty h' pid c).view := by
  have hrecord : t.record h' = s.record h := hk.record ht
  have hpermits : t.permits c.service.location (s.record h).owner =
      s.permits c.service.location (s.record h).owner := hk.permits _ _
  unfold Session.introduceEmpty
  simp only [hrecord, hpermits]
  split
  · exact hk
  · split
    · rw [view_greet, view_greet]
      exact (hk.bind ht _).hearAbout ht _ c none none
    · exact hk

/-- **Work for a pid sees no more than the share**, and does the same in sessions that have the
same one. -/
theorem perform {a b : Task} (hk : Abreast p v₀ w₀ s.view t.view)
    (ht : TwinTasks p v₀ w₀ a b) : Abreast p v₀ w₀ (s.perform a).view (t.perform b).view := by
  have hdirectory : t.directory = s.directory := hk.directory
  cases ht with
  | deliver twins g q => exact hk.deliver twins g q
  | retract twins owner => exact hk.retract twins owner
  | relocate twins former => exact hk.relocate twins former
  | greet c =>
    show Abreast p v₀ w₀ (s.attach c p none).view (t.attach c p none).view
    unfold Session.attach
    rw [hdirectory]
    split
    · exact hk
    · dsimp only
      rw [view_greet, view_greet]
      exact hk.hear _ c none rfl
  | @attach h h' twins c q g =>
    show Abreast p v₀ w₀ (s.attach c p (some ⟨h, q, g⟩)).view (t.attach c p (some ⟨h', q, g⟩)).view
    unfold Session.attach
    rw [hdirectory]
    split
    · exact hk
    · cases q with
      | none => exact hk.introduceEmpty twins p c
      | some q => exact hk.introduce twins _ c g q

end Abreast
end View
end Provisioning
