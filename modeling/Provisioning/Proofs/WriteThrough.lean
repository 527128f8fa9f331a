import Provisioning.Proofs.Rebuilding

/-! # Bindings are written through

The table in memory and the list of pairs behind it tell the same.  Loading makes them agree
whatever list it finds: the table has at most one binding for each pair, and as many only when it is
the list itself.  From then on a change is written at once, and what changes nothing needs no
writing.

While writes fail the list falls behind.  It is written as a whole, so that one change with writes
working again makes up for all that were missed.
-/
namespace Provisioning

namespace Table

variable {fold : String → String} {α : Type}

/-- Of several values that are written under a name, the last is kept. -/
theorem get?_putAll (t : Table fold α) (l : List (String × α)) (k : String) :
    (t.putAll l).get? k =
      (((l.filter fun e => fold e.1 == fold k).getLast?).map Prod.snd).or (t.get? k) := by
  induction l generalizing t with
  | nil => rfl
  | cons e rest ih =>
    have hall : (t.putAll (e :: rest)).get? k = ((t.put e.1 e.2).putAll rest).get? k := rfl
    rw [hall, ih, get?_put]
    by_cases he : fold e.1 = fold k
    · rw [if_pos he.symm, List.filter_cons_of_pos (by simpa using he), List.getLast?_cons]
      cases (rest.filter fun e => fold e.1 == fold k).getLast? <;> rfl
    · rw [if_neg (Ne.symm he), List.filter_cons_of_neg (by simpa using he)]

theorem get?_ofList (l : List (String × α)) (k : String) :
    (ofList l : Table fold α).get? k =
      ((l.filter fun e => fold e.1 == fold k).getLast?).map Prod.snd := by
  rw [ofList, get?_putAll, get?_empty, Option.or_none]

end Table

namespace Bindings

variable {id home : String} {st : Storage} {b : Bindings × Storage}

/-! ### Loading whatever is stored -/

/-- The pairs that a dictionary lists; without one there are none. -/
def listed (home id : String) (st : Storage) : List (String × String) :=
  ((st.held home id).map decode).getD []

/-- The bindings that are loaded: of each pid the last one to an installed location. -/
theorem get?_load (hread : id ∉ (st.backend home).unreadable) (installed : List String)
    (pid : String) :
    (load id home installed st).1.get? pid =
      (((listed home id st).filter fun e => e.1 == pid && installed.contains e.2).getLast?).map
        Prod.snd := by
  have hpairs : storedPairs id home st = listed home id st := storedPairs_eq hread
  unfold load get?
  rw [hpairs, Table.get?_ofList, List.filter_filter]

/-! ### Operations -/

/-- What is done with the bindings: one is set or cleared, or the table is loaded anew. -/
inductive Operation where
  | put (pid : String) (location : Option String)
  | reload (installed : List String)
  deriving Repr

/-- The table and the storage after an operation. -/
def operate (b : Bindings × Storage) : Operation → Bindings × Storage
  | .put pid location => b.1.put pid location b.2
  | .reload installed => load b.1.id b.1.home installed b.2

/-- What a table of bindings goes through: an operation, or a change in which writes fail. -/
inductive Event where
  | operation (o : Operation)
  | failures (failing : Bool) (unwritable : List String)
  deriving Repr

/-- The table and the storage after an event. -/
def undergo (b : Bindings × Storage) : Event → Bindings × Storage
  | .operation o => operate b o
  | .failures failing unwritable =>
    (b.1, b.2.withBackend b.1.home { b.2.backend b.1.home with failing, unwritable })

/-- The table is stored where it can be read. -/
def Readable (b : Bindings × Storage) : Prop := b.1.id ∉ (b.2.backend b.1.home).unreadable

/-- The table is stored where it can be written. -/
def Writable (b : Bindings × Storage) : Prop := (b.2.backend b.1.home).writable b.1.id = true

/-- Writing a table changes nothing about what a backend fails at. -/
theorem faults_persist (t : Bindings) (st : Storage) (name : String) :
    ((t.persist st).backend name).unreadable = (st.backend name).unreadable ∧
      ((t.persist st).backend name).writable = (st.backend name).writable := by
  rcases t.persist_cases st with h | h
  · rw [h]
    exact ⟨rfl, rfl⟩
  · rw [Storage.store_eq h, Storage.backend_withBackend]
    split
    · next hname =>
      rw [hname]
      exact ⟨rfl, rfl⟩
    · exact ⟨rfl, rfl⟩

/-- An operation keeps the table where it is, and writes nothing else. -/
theorem operate_cases (o : Operation) :
    (operate b o).1.id = b.1.id ∧ (operate b o).1.home = b.1.home ∧
      ((operate b o).2 = b.2 ∨ (operate b o).2 = (operate b o).1.persist b.2) := by
  cases o with
  | put pid location =>
    obtain ⟨hid, hhome⟩ := b.1.assign_identity pid location
    refine ⟨hid, hhome, ?_⟩
    unfold operate put
    dsimp only
    split
    · exact Or.inl rfl
    · exact Or.inr rfl
  | reload installed =>
    refine ⟨rfl, rfl, ?_⟩
    unfold operate load
    dsimp only
    split
    · exact Or.inr rfl
    · exact Or.inl rfl

theorem faults_operate (b : Bindings × Storage) (o : Operation) (name : String) :
    ((operate b o).2.backend name).unreadable = (b.2.backend name).unreadable ∧
      ((operate b o).2.backend name).writable = (b.2.backend name).writable := by
  obtain ⟨-, -, h | h⟩ := operate_cases (b := b) o
  · rw [h]
    exact ⟨rfl, rfl⟩
  · rw [h]
    exact faults_persist _ _ _

theorem readable_operate (h : Readable b) (o : Operation) : Readable (operate b o) := by
  obtain ⟨hid, hhome, -⟩ := operate_cases (b := b) o
  rw [Readable, hid, hhome, (faults_operate b o _).1]
  exact h

theorem writable_operate (h : Writable b) (o : Operation) : Writable (operate b o) := by
  obtain ⟨hid, hhome, -⟩ := operate_cases (b := b) o
  rw [Writable, hid, hhome, (faults_operate b o _).2]
  exact h

theorem readable_undergo (h : Readable b) (e : Event) : Readable (undergo b e) := by
  cases e with
  | operation o => exact readable_operate h o
  | failures failing unwritable =>
    unfold Readable undergo
    rw [Storage.backend_withBackend, if_pos rfl]
    exact h

theorem readable_foldl_undergo (h : Readable b) (events : List Event) :
    Readable (events.foldl undergo b) := by
  induction events generalizing b with
  | nil => exact h
  | cons e rest ih => exact ih (readable_undergo h e)

theorem identity_foldl_undergo (b : Bindings × Storage) (events : List Event) :
    (events.foldl undergo b).1.id = b.1.id ∧ (events.foldl undergo b).1.home = b.1.home := by
  induction events generalizing b with
  | nil => exact ⟨rfl, rfl⟩
  | cons e rest ih =>
    have hstep : (undergo b e).1.id = b.1.id ∧ (undergo b e).1.home = b.1.home := by
      cases e with
      | operation o => exact ⟨(operate_cases o).1, (operate_cases o).2.1⟩
      | failures failing unwritable => exact ⟨rfl, rfl⟩
    exact ⟨(ih _).1.trans hstep.1, (ih _).2.trans hstep.2⟩

/-! ### Agreement -/

/-- The table agrees with what is stored of it, and the storage lets it stay so. -/
structure InStep (b : Bindings × Storage) : Prop where
  readable : Readable b
  writable : Writable b
  posted : b.1.Posted b.2

/-- Loading makes the table agree with what is stored, whatever that is. -/
theorem inStep_reload (hread : Readable b) (hwrite : Writable b) (installed : List String) :
    InStep (operate b (.reload installed)) where
  readable := readable_operate hread (.reload installed)
  writable := writable_operate hwrite (.reload installed)
  posted := posted_load hread hwrite installed

/-- A change that can be written makes what is stored agree with the table, whatever that was. -/
theorem inStep_put (hread : Readable b) (hwrite : Writable b) {pid : String}
    {location : Option String} (hchange : b.1.get? pid ≠ location) :
    InStep (operate b (.put pid location)) where
  readable := readable_operate hread (.put pid location)
  writable := writable_operate hwrite (.put pid location)
  posted := by
    obtain ⟨hid, hhome⟩ := b.1.assign_identity pid location
    have hput : b.1.put pid location b.2 =
        (b.1.assign pid location, (b.1.assign pid location).persist b.2) := by
      unfold put
      dsimp only
      rw [if_neg (by simpa using hchange)]
    rw [operate, hput]
    apply posted_persist
    rw [hid, hhome]
    exact hwrite

namespace InStep

theorem operate (h : InStep b) (o : Operation) : InStep (operate b o) := by
  cases o with
  | put pid location =>
    by_cases hsame : b.1.get? pid = location
    · have hput : b.1.put pid location b.2 = b := by
        unfold put
        dsimp only
        rw [assign_get? b.1 hsame, if_pos (by simpa using hsame)]
      rw [Bindings.operate, hput]
      exact h
    · exact inStep_put h.readable h.writable hsame
  | reload installed => exact inStep_reload h.readable h.writable installed

theorem foldl (h : InStep b) (operations : List Operation) :
    InStep (operations.foldl Bindings.operate b) := by
  induction operations generalizing b with
  | nil => exact h
  | cons o rest ih => exact ih (h.operate o)

end InStep

/-- The table has one binding for each pid, what is stored of it lists exactly its bindings, and
loading it again gives those to locations that are installed. -/
structure WrittenThrough (b : Bindings × Storage) : Prop where
  single : b.1.table.keys.Nodup
  stored : listed b.1.home b.1.id b.2 = b.1.table.entries
  reload : ∀ installed, (load b.1.id b.1.home installed b.2).1.table.entries =
    b.1.table.entries.filter fun e => installed.contains e.2

theorem InStep.writtenThrough (h : InStep b) : WrittenThrough b where
  single := b.1.table.distinct
  stored := h.posted
  reload installed := by
    rw [table_load h.posted h.readable]
    rfl

/-- Bindings are written through.  Whatever is stored of them where it can be read, the table that
is loaded has of each pid the last pair with an installed location.  With writes working, what is
stored then agrees with the table, through every sequence of operations.  Where writes have failed,
the first change that can be written makes it agree again. -/
theorem bindings_written_through (hread : id ∉ (st.backend home).unreadable)
    (installed : List String) :
    (∀ pid, (load id home installed st).1.get? pid =
      (((listed home id st).filter fun e => e.1 == pid && installed.contains e.2).getLast?).map
        Prod.snd) ∧
    ((st.backend home).writable id = true → ∀ operations : List Operation,
      WrittenThrough (operations.foldl operate (load id home installed st))) ∧
    ∀ (events : List Event) (b : Bindings × Storage) (pid : String) (location : Option String),
      b = events.foldl undergo (load id home installed st) →
      (b.2.backend home).writable id = true →
      (b.1.put pid location b.2).1.table ≠ b.1.table →
      ∀ operations : List Operation,
        WrittenThrough (operations.foldl operate (b.1.put pid location b.2)) := by
  refine ⟨get?_load hread installed, fun hwrite operations => ?_,
    fun events b pid location hb hwrite hchange operations => ?_⟩
  · have hload : InStep (load id home installed st) :=
      inStep_reload (b := ({ id, home }, st)) hread hwrite installed
    exact (hload.foldl operations).writtenThrough
  · have hload : Readable (load id home installed st) :=
      readable_operate (b := ({ id, home }, st)) hread (.reload installed)
    obtain ⟨hid, hhome⟩ : b.1.id = id ∧ b.1.home = home :=
      hb ▸ identity_foldl_undergo (load id home installed st) events
    have hput : InStep (operate b (.put pid location)) := by
      refine inStep_put (hb ▸ readable_foldl_undergo hload events) ?_ fun hsame => hchange ?_
      · rw [Writable, hid, hhome]
        exact hwrite
      · exact congrArg Bindings.table (assign_get? b.1 hsame)
    exact (hput.foldl operations).writtenThrough

/-- A storage whose list has pairs that are none, one that is overruled and one to a location that
is gone. -/
def soiled : Storage :=
  ({} : Storage).withBackend "disk" <| Backend.place {} "bindings" <|
    Table.empty.put listKey <| .list
      [encodePair ("a", "here"), .text "a", encodePair ("b", "gone"), encodePair ("a", "there"),
        .list [.text "c"], encodePair ("d", "here")]

/-- A binding is cleared while no write succeeds. -/
def storm : List Event := [.failures true [], .operation (.put "d" none), .failures false []]

theorem bindings_written_through_storm :
    let first := load "bindings" "disk" ["here", "there"] soiled
    let late := storm.foldl undergo first
    first.1.get? "a" = some "there" ∧ WrittenThrough (operate first (.reload ["here"])) ∧
      listed "disk" "bindings" late.2 ≠ late.1.table.entries ∧
      WrittenThrough (late.1.put "e" (some "here") late.2) := by
  intro first late
  have hread : "bindings" ∉ (soiled.backend "disk").unreadable := by decide
  obtain ⟨hlast, hcalm, hstorm⟩ := bindings_written_through hread ["here", "there"]
  refine ⟨(hlast "a").trans (by decide), hcalm (by decide) [.reload ["here"]], by decide, ?_⟩
  have hchange : (late.1.put "e" (some "here") late.2).1.table ≠ late.1.table :=
    fun h => absurd (congrArg Table.entries h) (by decide)
  exact hstorm storm late "e" (some "here") rfl (by decide) hchange []

end Bindings
end Provisioning
