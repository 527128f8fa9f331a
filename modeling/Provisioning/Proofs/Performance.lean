import Provisioning.Proofs.HookPledges

/-! # What a running task keeps

While a task runs, each of its effects keeps the order of the session, and each callback that it
makes agrees with the mark it leaves.  A consumer that was reached stays reached, and one that
took something may see the record still: only a change of the owner takes a record away, and it
takes it from those who may not see it any more.
-/
namespace Provisioning

variable {H : History} {late : Handle → Consumer → List Call → Prop}
variable {t : Task} {v v' : View} {h : Handle} {c : Consumer}

/-- A task that is about to run: it is sound, first of the deliveries of its record, and strikes
off no member that is known. -/
structure Task.Due (H : History) (v : View) (t : Task) : Prop where
  sound : t.Sound H v
  first : ∀ h g p, t = .deliver h g p → ∀ g' p', .deliver h g' p' ∈ v.waiting → g < g'
  unfading : ∀ h owner, t = .retract h owner → ∀ h' f, v.Known h' →
    (v.record h).pid = (v.record h').pid → (v.record h').factoryPid = some f →
      (v.record h).factoryPid ≠ some f

namespace View

/-! ### Steady states -/

theorem Steady.known (hst : v.Steady v') : v'.Known h ↔ v.Known h := by
  unfold Known
  rw [hst.cached, (hst.content h).pid]

theorem Steady.recalls (hst : v.Steady v') {m : Snapshot} (hm : v.Recalls H m) :
    v'.Recalls H m := by
  unfold Recalls
  rw [hst.length, (hst.content _).counter]
  exact hm

theorem Steady.sound (hst : v.Steady v') (ht : t.Sound H v) : t.Sound H v' := by
  refine ⟨fun m hm => hst.recalls (ht.recalls m hm), ?_⟩
  have hfits := ht.fits
  cases t with
  | deliver => trivial
  | retract h owner => exact (hst.content h).deleted.trans hfits
  | relocate h former => exact Nat.lt_of_lt_of_eq hfits hst.length.symm
  | attach c pid snapshot => exact ⟨hst.directory ▸ hfits.1, hfits.2⟩
  | attachFactory c f members =>
    refine ⟨hst.directory ▸ hfits.1, hfits.2.1, fun m hm => ?_⟩
    rw [(hst.content _).factoryPid]
    exact hfits.2.2 m hm

theorem Steady.due (hst : v.Steady v') (ht : t.Due H v) : t.Due H v' := by
  refine ⟨hst.sound ht.sound, ?_, ?_⟩
  · rw [hst.waiting]
    exact ht.first
  · intro i owner he j f hk hp hf
    rw [hst.known] at hk
    rw [(hst.content i).pid, (hst.content j).pid] at hp
    rw [(hst.content j).factoryPid] at hf
    rw [(hst.content i).factoryPid]
    exact ht.unfading i owner he j f hk hp hf

/-- What has to be shown of an effect for the order to be kept. -/
theorem Orderly.steady (hv : v.Orderly H) (hst : v.Steady v') (filed : v'.Filed)
    (called : ∀ k ∈ v'.calls, k ∈ v.calls ∨ (k.consumer ∈ v.directory.consumers ∧
      ∀ o, k.occasion = some o → o.record < v.records.length))
    (marked : ∀ h id w, (v'.record h).watermark? id = some w →
      w ≤ (v.record h).counter ∧ id ≤ v.directory.registrations ∧ H h w ≠ none)
    (delivered : ∀ h, (v'.record h).delivered ≤ (v.record h).counter ∧
      ∀ g p, .deliver h g p ∈ v.waiting → (v'.record h).delivered < g)
    (lists : ∀ h f, v.Known h → (v.record h).factoryPid = some f →
      v.lists f (v.record h).pid = true → v'.lists f (v.record h).pid = true) :
    v'.Orderly H where
  filed := filed
  accepting := hst.accepting.trans hv.accepting
  wellKept := hst.directory.symm ▸ hv.wellKept
  own := fun l => (hst.permits l _).trans (hv.own l)
  sound := by
    rw [hst.waiting]
    exact fun t ht => hst.sound (hv.sound t ht)
  called := by
    rw [hst.directory, hst.length]
    intro k hk
    rcases called k hk with hold | hnew
    · exact hv.called k hold
    · exact hnew
  marked := by
    intro i id w hw
    rw [hst.directory, (hst.content i).counter]
    exact marked i id w hw
  current := by
    intro i hi
    rw [hst.length] at hi
    rw [(hst.content i).counter, (hst.content i).properties]
    exact hv.current i hi
  unborn := by
    rw [hst.length]
    exact hv.unborn
  lasting := by
    intro i g hle
    rw [(hst.content i).counter] at hle
    rw [(hst.content i).properties]
    exact hv.lasting i g hle
  ordered := by
    rw [hst.waiting]
    exact hv.ordered
  ahead := by
    rw [hst.waiting]
    exact fun i g p ht => (delivered i).2 g p ht
  reached := by
    intro i
    rw [(hst.content i).counter]
    exact (delivered i).1
  listed := by
    intro i f hk hf hp
    rw [hst.known] at hk
    rw [(hst.content i).factoryPid] at hf
    rw [(hst.content i).properties] at hp
    rw [(hst.content i).pid]
    exact lists i f hk hf (hv.listed i f hk hf hp)
  unfading := by
    rintro i f hk hf ⟨j, owner, ht, hp, hf'⟩
    rw [hst.known] at hk
    rw [(hst.content i).factoryPid] at hf
    rw [hst.waiting] at ht
    rw [(hst.content j).pid, (hst.content i).pid] at hp
    rw [(hst.content j).factoryPid] at hf'
    exact hv.unfading i f hk hf ⟨j, owner, ht, hp, hf'⟩

/-- The task that waits longest is taken from the line. -/
theorem Orderly.pop {rest : List Task} (hv : v.Orderly H) (hw : v.waiting = t :: rest) :
    ({ v with waiting := rest } : View).Orderly H ∧ t.Due H { v with waiting := rest } ∧
      ∀ h g p, t = .deliver h g p → (v.record h).delivered < g := by
  have hmem : ∀ t' ∈ rest, t' ∈ v.waiting := fun t' ht => hw ▸ List.mem_cons_of_mem _ ht
  have hhead : t ∈ v.waiting := hw ▸ List.mem_cons_self
  have hord := hv.ordered
  rw [hw] at hord
  obtain ⟨hfirst, hrest⟩ := List.pairwise_cons.mp hord
  refine ⟨{ hv with
    filed := ⟨hv.filed.held, hv.filed.titled, hv.filed.distinct⟩
    sound := fun t' ht => ⟨(hv.sound t' (hmem t' ht)).recalls, (hv.sound t' (hmem t' ht)).fits⟩
    ordered := hrest
    ahead := fun i g p ht => hv.ahead i g p (hmem _ ht)
    unfading := ?_ }, ⟨⟨(hv.sound t hhead).recalls, (hv.sound t hhead).fits⟩, ?_, ?_⟩, ?_⟩
  · rintro i f hk hf ⟨j, owner, ht, hp, hf'⟩
    exact hv.unfading i f hk hf ⟨j, owner, hmem _ ht, hp, hf'⟩
  · rintro i g p rfl g' p' ht
    exact hfirst _ ht i g p g' p' rfl rfl
  · rintro i owner rfl j f hk hp hf hf'
    exact hv.unfading j f hk hf ⟨i, owner, hhead, hp, hf'⟩
  · rintro i g p rfl
    exact hv.ahead i g p hhead

/-! ### Callbacks -/

theorem record_hear_change {o : Option Occasion} {p : Option Properties} {target : Target}
    (f : Record → Record) (i : Handle) :
    ((v.hear target c p o).change h f).record i = (v.change h f).record i := rfl

/-- A callback to one consumer about one record is nothing to others. -/
theorem words_hear_other {o : Option Occasion} {p : Option Properties} {target : Target}
    {i : Handle} {c' : Consumer} (hno : c = c' → ∀ o', o = some o' → o'.record ≠ i) :
    (v.hear target c p o).words i c' = v.words i c' := by
  have hnone : (((target.call? c p).map fun m => (⟨c, m, o⟩ : Call)).toList).filter
      (Call.isAbout i c') = [] := by
    refine List.filter_eq_nil_iff.mpr fun k hk hab => ?_
    obtain ⟨m, -, rfl⟩ := Option.map_eq_some_iff.mp (Option.mem_toList.mp hk)
    obtain ⟨hc, o', ho, hr⟩ := Call.isAbout_iff.mp hab
    exact hno hc o' ho hr
  unfold words hear
  rw [List.filter_append, hnone, List.append_nil]

theorem words_hear_self {o : Occasion} {p : Option Properties} {target : Target} {i : Handle}
    (hcalls : v'.calls = (v.hear target c p (some o)).calls) (hkind : c.kind = target.kind)
    (hr : o.record = i) :
    v'.words i c = v.words i c ++ [⟨c, target.message p, some o⟩] := by
  have hcall : target.call? c p = some (target.message p) := by
    unfold Target.call?
    rw [hkind, beq_self_eq_true, if_pos rfl]
  unfold words
  rw [hcalls]
  unfold hear
  rw [hcall, List.filter_append]
  refine congrArg (v.calls.filter (Call.isAbout i c) ++ ·) (List.filter_eq_self.mpr ?_)
  intro k hk
  rw [List.mem_singleton.mp hk]
  exact Call.isAbout_iff.mpr ⟨rfl, o, rfl, hr⟩

/-! ### What is served -/

/-- What a consumer is served: a generation of a record that it has not passed, in the way its
kind is served. -/
structure Serves (H : History) (v : View) (h : Handle) (c : Consumer) (g : Nat) (p : Properties)
    (target : Target) : Prop where
  consumer : c ∈ v.directory.consumers
  inRange : h < v.records.length
  generation : g ≤ (v.record h).counter
  history : H h g = some p
  newer : ∀ w, v.mark? h c = some w → w ≤ g
  kind : c.kind = target.kind

theorem newer_of_undelivered {g : Nat}
    (hn : (v.record h).deliveredTo c.service.id g = false) (w : Nat)
    (hw : v.mark? h c = some w) : w ≤ g :=
  Nat.le_of_lt ((v.record h).deliveredTo_eq_false_iff.mp hn w hw)

theorem Orderly.serves (hv : v.Orderly H) (ht : t.Due H v) {g : Nat} {p : Properties}
    (hb : t.Brings v h c g p) : Serves H v h c g p (t.address v h) := by
  cases t with
  | deliver h' g' p' =>
    obtain ⟨rfl, rfl, rfl, hc, hn⟩ := hb
    obtain ⟨hlt, hle, hh⟩ := ht.sound.recalls _ List.mem_cons_self
    obtain ⟨hmem, -, hkind, -⟩ := Target.mem_resolve.mp hc
    exact ⟨hmem, hlt, hle, hh, newer_of_undelivered hn, hkind⟩
  | relocate h' former =>
    obtain ⟨rfl, rfl, hp, hc, -⟩ := hb
    obtain ⟨hmem, -, hkind, -⟩ := Target.mem_resolve.mp hc
    have hlt : h' < v.records.length := ht.sound.fits
    exact ⟨hmem, hlt, Nat.le_refl _, (hv.current h' hlt).trans hp,
      fun w hw => (hv.marked h' _ w hw).1, hkind⟩
  | attach c' pid snapshot =>
    obtain ⟨rfl, rfl, hn⟩ := hb
    obtain ⟨hmem, hkind⟩ := ht.sound.fits
    obtain ⟨hlt, hle, hh⟩ := ht.sound.recalls _ List.mem_cons_self
    exact ⟨hmem, hlt, hle, hh, newer_of_undelivered hn, hkind⟩
  | attachFactory c' f members =>
    obtain ⟨rfl, hm, hn⟩ := hb
    obtain ⟨hmem, hkind, hfac⟩ := ht.sound.fits
    obtain ⟨hlt, hle, hh⟩ := ht.sound.recalls _ hm
    refine ⟨hmem, hlt, hle, hh, newer_of_undelivered hn, ?_⟩
    have hf : (v.record h).factoryPid = some f := hfac _ hm
    show c'.kind = (v.record h).target.kind
    unfold Record.target
    rw [hf]
    exact hkind
  | retract => exact hb.elim

end View

/-- A sound task speaks of what is there. -/
theorem Task.Sound.refers (ht : t.Sound H v) :
    t.Refers v ∧ ∀ c, t.consumer? = some c → c ∈ v.directory.consumers := by
  have hfits := ht.fits
  refine ⟨⟨fun m hm => (ht.recalls m hm).1, ?_, ?_⟩, fun c hc => ?_⟩
  · rintro h former rfl
    exact hfits
  · rintro h owner rfl
    exact hfits
  · cases t with
    | attach =>
      cases hc
      exact hfits.1
    | attachFactory =>
      cases hc
      exact hfits.1
    | deliver | retract | relocate => cases hc

/-- An effect marks only generations that were, for consumers that are registered. -/
theorem TaskEffect.marked (hd : TaskEffect t v v') (hv : v.Orderly H) (ht : t.Due H v) (i : Handle)
    (id w : Nat) (hw : (v'.record i).watermark? id = some w) :
    w ≤ (v.record i).counter ∧ id ≤ v.directory.registrations ∧ H i w ≠ none := by
  cases hd with
  | bind =>
    rw [v.record_change_of_eq (q := fun r => r.watermark? id) fun r => r.watermark?_bind _ id] at hw
    exact hv.marked i id w hw
  | @advance _ h g =>
    rw [v.record_change_of_eq (q := fun r => r.watermark? id)
      (f := fun r => r.advance g) fun r => rfl] at hw
    exact hv.marked i id w hw
  | strike _ filing =>
    obtain ⟨rosters, rfl⟩ := filing.exists_rosters
    exact hv.marked i id w hw
  | @serve _ _ h c g p sees brings =>
    have hs := hv.serves ht brings
    rw [View.record_hear_change] at hw
    by_cases hi : i = h
    · subst hi
      rw [View.record_change_self _ hs.inRange] at hw
      by_cases hid : id = c.service.id
      · -- the new mark is the generation that was served
        subst hid
        rw [Record.watermark?_note_new _ hs.newer] at hw
        cases hw
        refine ⟨hs.generation, hv.wellKept.id_le hs.consumer, ?_⟩
        rw [hs.history]
        exact Option.some_ne_none p
      · rw [Record.watermark?_note, if_neg hid] at hw
        exact hv.marked i id w hw
    · rw [View.record_change_ne _ hi] at hw
      exact hv.marked i id w hw
  | @revoke _ h c =>
    rw [View.record_hear_change, View.record_change] at hw
    split at hw
    · next hi =>
      rw [Record.watermark?_forget] at hw
      split at hw
      · cases hw
      · exact hi.1 ▸ hv.marked h id w hw
    · exact hv.marked i id w hw
  | retract | greet | greetEmpty => exact hv.marked i id w hw

/-- What waits is newer than what counts as delivered to all. -/
theorem TaskEffect.delivered (hd : TaskEffect t v v') (hv : v.Orderly H) (ht : t.Due H v)
    (i : Handle) :
    (v'.record i).delivered ≤ (v.record i).counter ∧
      ∀ g p, .deliver i g p ∈ v.waiting → (v'.record i).delivered < g := by
  have hsame : (v'.record i).delivered = (v.record i).delivered →
      (v'.record i).delivered ≤ (v.record i).counter ∧
        ∀ g p, .deliver i g p ∈ v.waiting → (v'.record i).delivered < g := by
    intro he
    rw [he]
    exact ⟨hv.reached i, hv.ahead i⟩
  cases hd with
  | bind =>
    exact hsame (v.record_change_of_eq (q := Record.delivered) (fun r => r.delivered_bind _) _ i)
  | @advance _ h g p =>
    rw [View.record_change]
    split
    · next hi =>
      rw [hi.1]
      refine ⟨Nat.max_le.mpr ⟨hv.reached h, Nat.min_le_right _ _⟩, fun g' p' ht' => ?_⟩
      -- deliveries of one record wait in their order, so that this one is the oldest
      have hnew := ht.first h g p rfl g' p' ht'
      have hold := hv.ahead h g' p' ht'
      exact Nat.max_lt.mpr ⟨hold, Nat.lt_of_le_of_lt (Nat.min_le_left _ _) hnew⟩
    · exact ⟨hv.reached i, hv.ahead i⟩
  | strike _ filing =>
    obtain ⟨rosters, rfl⟩ := filing.exists_rosters
    exact hsame rfl
  | @serve _ _ h c g =>
    exact hsame (v.record_change_of_eq (q := Record.delivered)
      (f := fun r => r.note c.service.id g) (fun _ => rfl) h i)
  | @revoke _ h c =>
    exact hsame (v.record_change_of_eq (q := Record.delivered)
      (f := fun r => r.forget c.service.id) (fun _ => rfl) h i)
  | retract | greet | greetEmpty => exact hsame rfl

/-- No known member is struck off its roster. -/
theorem TaskEffect.lists (hd : TaskEffect t v v') (hv : v.Orderly H) (ht : t.Due H v) {i : Handle}
    {f : String} (hk : v.Known i) (hf : (v.record i).factoryPid = some f)
    (hl : v.lists f (v.record i).pid = true) : v'.lists f (v.record i).pid = true := by
  cases hd with
  | @strike _ _ h owner f' factory filing =>
    rcases filing.lists hv.filed f _ hl with hl | ⟨rfl, hp⟩
    · exact hl
    · exact absurd factory (ht.unfading h owner rfl i f hk hp.symm hf)
  | _ => exact hl

/-- **Each effect keeps the order.** -/
theorem TaskEffect.orderly (hd : TaskEffect t v v') (hv : v.Orderly H) (ht : t.Due H v) :
    v'.Orderly H :=
  hv.steady hd.steady (TaskEffects.filed (Relation.ReflTransGen.single hd) hv.filed)
    (hd.called ht.sound.refers.1 ht.sound.refers.2) (hd.marked hv ht) (hd.delivered hv ht)
    fun _ _ hk hf hl => hd.lists hv ht hk hf hl

namespace View

/-! ### Marks -/

/-- A change of one mark of a record leaves those of all other consumers alone. -/
theorem mark?_change {f : Record → Record} {c' : Consumer} {i : Handle}
    (hlt : h < v.records.length) (hk : v.directory.WellKept)
    (hc : c ∈ v.directory.consumers) (hc' : c' ∈ v.directory.consumers)
    (hf : ∀ id, id ≠ c.service.id →
      (f (v.record h)).watermark? id = (v.record h).watermark? id) :
    (v.change h f).mark? i c' =
      if i = h ∧ c' = c then (f (v.record h)).watermark? c.service.id else v.mark? i c' := by
  by_cases hi : i = h
  · subst hi
    rw [mark?_change_self hlt]
    by_cases he : c' = c
    · rw [he, if_pos ⟨rfl, rfl⟩]
    · -- no two consumers have the same number
      have hid : c'.service.id ≠ c.service.id := fun hx => he (hk.eq_of_id hc' hc hx)
      rw [if_neg fun hx => he hx.2]
      exact hf _ hid
  · rw [if_neg fun hx => hi hx.1, mark?, mark?, v.record_change_ne hi]

theorem Serves.mark? {g : Nat} {p : Properties} {target : Target} {c' : Consumer} {i : Handle}
    (hs : Serves H v h c g p target) (hk : v.directory.WellKept)
    (hc' : c' ∈ v.directory.consumers) :
    (v.change h fun r => r.note c.service.id g).mark? i c' =
      if i = h ∧ c' = c then some g else v.mark? i c' := by
  rw [mark?_change hs.inRange hk hs.consumer hc' fun id hid => ?_]
  · rw [Record.watermark?_note_new _ hs.newer]
  · rw [Record.watermark?_note, if_neg hid]

theorem mark?_forget {c' : Consumer} {i : Handle} (hlt : h < v.records.length)
    (hk : v.directory.WellKept) (hc : c ∈ v.directory.consumers)
    (hc' : c' ∈ v.directory.consumers) :
    (v.change h fun r => r.forget c.service.id).mark? i c' =
      if i = h ∧ c' = c then none else v.mark? i c' := by
  rw [mark?_change hlt hk hc hc' fun id hid => ?_]
  · rw [Record.watermark?_forget, if_pos rfl]
  · rw [Record.watermark?_forget, if_neg hid]

theorem mark?_bind (location : String) (i : Handle) :
    (v.change h fun r => r.bind location).mark? i c = v.mark? i c :=
  v.record_change_of_eq (q := fun r => r.watermark? c.service.id)
    (fun r => r.watermark?_bind _ _) h i

theorem mark?_advance (g : Nat) (i : Handle) :
    (v.change h fun r => r.advance g).mark? i c = v.mark? i c :=
  v.record_change_of_eq (q := fun r => r.watermark? c.service.id)
    (f := fun r => r.advance g) (fun _ => rfl) h i

/-! ### Callbacks agree with marks -/

/-- A callback to somebody else, or about another record. -/
theorem Heard.other {i : Handle} {c' : Consumer} (hh : v.Heard H i c' late)
    (hmark : v'.mark? i c' = v.mark? i c') (hwords : v'.words i c' = v.words i c') :
    v'.Heard H i c' late :=
  hh.carry hmark hwords fun _ _ => rfl

/-- The last callback takes the record away, and the mark is gone. -/
theorem heard_of_none {i : Handle} {c' : Consumer} {before : List Call} {k : Call}
    (hn : v.mark? i c' = none) (hwords : v.words i c' = before ++ [k])
    (hp : k.message.properties? = none) : v.Heard H i c' late := by
  constructor
  · intro _ k' hlast
    rw [hwords, List.getLast?_concat] at hlast
    cases hlast
    exact hp
  · intro w hw
    rw [hn] at hw
    cases hw

/-- The last callback hands over what the mark stands for. -/
theorem heard_of_some {i : Handle} {c' : Consumer} {before : List Call} {k : Call} {g : Nat}
    {p : Properties} (hm : v.mark? i c' = some g) (hwords : v.words i c' = before ++ [k])
    (hh : H i g = some p) (hk : k.Hands p) : v.Heard H i c' late := by
  constructor
  · intro hn
    rw [hm] at hn
    cases hn
  · intro w hw
    rw [hm] at hw
    cases hw
    refine Or.inl ⟨k, p, ?_, hh, hk⟩
    rw [hwords, List.getLast?_concat]

end View

/-- **Each effect leaves callbacks and marks in agreement**, but for the greeting of a consumer that
is told of a record without properties. -/
theorem TaskEffect.heard (hd : TaskEffect t v v') (hv : v.Orderly H) (ht : t.Due H v)
    (hfull : ∀ c pid h g, t ≠ .attach c pid (some ⟨h, none, g⟩)) {i : Handle} {c' : Consumer}
    (hk : v.Known i) (hc' : c' ∈ v.directory.consumers) (hh : v.Heard H i c' late) :
    v'.Heard H i c' late := by
  cases hd with
  | bind => exact hh.other (View.mark?_bind _ _) rfl
  | advance => exact hh.other (View.mark?_advance _ _) rfl
  | @serve _ _ h c g p sees brings =>
    have hs := hv.serves ht brings
    have hmark := hs.mark? hv.wellKept hc' (i := i)
    by_cases he : i = h ∧ c' = c
    · rw [if_pos he] at hmark
      obtain ⟨rfl, rfl⟩ := he
      refine View.heard_of_some hmark (View.words_hear_self rfl hs.kind rfl) hs.history
        ⟨?_, _, g, rfl, rfl⟩
      rw [Target.properties?_message]
      exact Option.some_ne_none _
    · rw [if_neg he] at hmark
      refine hh.other hmark (View.words_hear_other fun hcc o ho hr => he ⟨?_, hcc.symm⟩)
      cases ho
      exact hr.symm
  | @revoke _ h c former undeleted target saw unseen =>
    have hlt : h < v.records.length := ht.sound.fits
    obtain ⟨hc, -, hkind, -⟩ := Target.mem_resolve.mp target
    have hmark := View.mark?_forget (i := i) hlt hv.wellKept hc hc'
    by_cases he : i = h ∧ c' = c
    · rw [if_pos he] at hmark
      obtain ⟨rfl, rfl⟩ := he
      exact View.heard_of_none hmark (View.words_hear_self rfl hkind rfl)
        ((v.record i).target.properties?_message none)
    · rw [if_neg he] at hmark
      refine hh.other hmark (View.words_hear_other fun hcc o ho hr => he ⟨?_, hcc.symm⟩)
      cases ho
      exact hr.symm
  | @retract _ h c owner target saw =>
    -- the record is deleted, and not known any more
    refine hh.other rfl (View.words_hear_other fun _ o ho hr => ?_)
    cases ho
    have hdel : (v.record h).deleted = true := ht.sound.fits
    rw [show h = i from hr, hv.undeleted hk] at hdel
    cases hdel
  | strike _ filing =>
    obtain ⟨rosters, rfl⟩ := filing.exists_rosters
    exact hh.other rfl rfl
  | greet => exact hh.other rfl (View.words_hear_other fun _ o ho => by cases ho)
  | @greetEmpty _ h c pid g => exact absurd rfl (hfull c pid h g)

/-- What an effect does to the mark of a consumer: nothing, or the consumer may see the record and
takes something newer, or it may not and the mark goes. -/
theorem TaskEffect.mark_or (hd : TaskEffect t v v') (hv : v.Orderly H) (ht : t.Due H v)
    (hc : c ∈ v.directory.consumers) (h : Handle) :
    v'.mark? h c = v.mark? h c ∨
    (∃ g, v'.mark? h c = some g ∧ (∀ w, v.mark? h c = some w → w ≤ g) ∧ v.MaySee h c ∧
      h < v.records.length) ∨
    (v'.mark? h c = none ∧ v.permits c.service.location (v.record h).owner = false) := by
  cases hd with
  | bind => exact Or.inl (View.mark?_bind _ _)
  | advance => exact Or.inl (View.mark?_advance _ _)
  | @serve _ _ h' c' g p sees brings =>
    have hs := hv.serves ht brings
    have hmark := hs.mark? hv.wellKept hc (i := h)
    by_cases he : h = h' ∧ c = c'
    · rw [if_pos he] at hmark
      obtain ⟨rfl, rfl⟩ := he
      exact Or.inr (Or.inl ⟨g, hmark, hs.newer, sees, hs.inRange⟩)
    · rw [if_neg he] at hmark
      exact Or.inl hmark
  | @revoke _ h' c' former undeleted target saw unseen =>
    have hlt : h' < v.records.length := ht.sound.fits
    have hmark := View.mark?_forget (i := h) hlt hv.wellKept (Target.mem_resolve.mp target).1 hc
    by_cases he : h = h' ∧ c = c'
    · rw [if_pos he] at hmark
      obtain ⟨rfl, rfl⟩ := he
      exact Or.inr (Or.inr ⟨hmark, unseen⟩)
    · rw [if_neg he] at hmark
      exact Or.inl hmark
  | strike _ filing =>
    obtain ⟨rosters, rfl⟩ := filing.exists_rosters
    exact Or.inl rfl
  | retract | greet | greetEmpty => exact Or.inl rfl

theorem TaskEffect.reached {g : Nat} (hd : TaskEffect t v v') (hv : v.Orderly H) (ht : t.Due H v)
    (hc : c ∈ v.directory.consumers) (hr : v.Reached h c g) : v'.Reached h c g := by
  have hst := hd.steady
  rcases hr with ⟨w, hw, hle⟩ | ⟨o, ho, hp⟩
  · rcases hd.mark_or hv ht hc h with hsame | ⟨g', hmark, hnewer, -, -⟩ | ⟨-, hunseen⟩
    · exact Or.inl ⟨w, hsame.trans hw, hle⟩
    · exact Or.inl ⟨g', hmark, Nat.le_trans hle (hnewer w hw)⟩
    · -- it is taken away from one that may not see it
      cases ho : (v.record h).owner with
      | none =>
        rw [ho] at hunseen
        cases hunseen
      | some o =>
        rw [ho] at hunseen
        exact Or.inr ⟨o, hst.owned h o ho, (hst.permits _ _).trans hunseen⟩
  · exact Or.inr ⟨o, hst.owned h o ho, (hst.permits _ _).trans hp⟩

theorem TaskEffect.rightful (hd : TaskEffect t v v') (hv : v.Orderly H) (ht : t.Due H v)
    (hc : c ∈ v.directory.consumers) (hr : v.Rightful h c) : v'.Rightful h c := by
  have hst := hd.steady
  rcases hr with hn | ⟨o, ho, hp⟩
  · rcases hd.mark_or hv ht hc h with hsame | ⟨g, -, -, hsees, hlt⟩ | ⟨hgone, -⟩
    · exact Or.inl (hsame.trans hn)
    · -- whoever is served may see the record
      obtain ⟨o, ho⟩ := Option.ne_none_iff_exists'.mp (hsees.owned hlt)
      refine Or.inr ⟨o, hst.owned h o ho, (hst.permits _ _).trans ?_⟩
      exact ho ▸ hsees.permits hv.own
    · exact Or.inl hgone
  · exact Or.inr ⟨o, hst.owned h o ho, (hst.permits _ _).trans hp⟩

/-- What one effect keeps of an orderly session, as long as the task is due, the task keeps. -/
theorem TaskEffects.keep_orderly {K : View → Prop} (hd : TaskEffects t v v') (hv : v.Orderly H)
    (ht : t.Due H v)
    (hstep : ∀ v₁ v₂, TaskEffect t v₁ v₂ → v.Steady v₁ → v₁.Orderly H → t.Due H v₁ → K v₁ → K v₂)
    (h : K v) : v'.Orderly H ∧ K v' := by
  suffices hall : v.Steady v' ∧ v'.Orderly H ∧ t.Due H v' ∧ K v' from ⟨hall.2.1, hall.2.2.2⟩
  induction hd with
  | refl => exact ⟨.refl v, hv, ht, h⟩
  | tail _ hlast ih =>
    obtain ⟨hst, hv₁, ht₁, hK⟩ := ih
    exact ⟨hst.trans hlast.steady, hlast.orderly hv₁ ht₁, hlast.steady.due ht₁,
      hstep _ _ hlast hst hv₁ ht₁ hK⟩

theorem TaskEffects.orderly (hd : TaskEffects t v v') (hv : v.Orderly H) (ht : t.Due H v) :
    v'.Orderly H :=
  (hd.keep_orderly hv ht (K := fun _ => True) (fun _ _ _ _ _ _ _ => trivial) trivial).1

theorem TaskEffects.reached {g : Nat} (hd : TaskEffects t v v') (hv : v.Orderly H) (ht : t.Due H v)
    (hc : c ∈ v.directory.consumers) (hr : v.Reached h c g) : v'.Reached h c g :=
  (hd.keep_orderly hv ht (K := fun u => u.Reached h c g)
    (fun _ _ hone hst hv₁ ht₁ => hone.reached hv₁ ht₁ (hst.directory.symm ▸ hc)) hr).2

theorem TaskEffects.rightful (hd : TaskEffects t v v') (hv : v.Orderly H) (ht : t.Due H v)
    (hc : c ∈ v.directory.consumers) (hr : v.Rightful h c) : v'.Rightful h c :=
  (hd.keep_orderly hv ht (K := fun u => u.Rightful h c)
    (fun _ _ hone hst hv₁ ht₁ => hone.rightful hv₁ ht₁ (hst.directory.symm ▸ hc)) hr).2

theorem TaskEffects.heard (hd : TaskEffects t v v') (hv : v.Orderly H) (ht : t.Due H v)
    (hfull : ∀ c pid h g, t ≠ .attach c pid (some ⟨h, none, g⟩)) (hk : v.Known h)
    (hc : c ∈ v.directory.consumers) (hh : v.Heard H h c late) : v'.Heard H h c late :=
  (hd.keep_orderly hv ht (K := fun u => u.Heard H h c late)
    (fun _ _ hone hst hv₁ ht₁ => hone.heard hv₁ ht₁ hfull (hst.known.mpr hk)
      (hst.directory.symm ▸ hc)) hh).2

end Provisioning
