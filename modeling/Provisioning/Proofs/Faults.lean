import Provisioning.Proofs.Printing

/-! # Faults in the text of a filter

What is wrong with a text that is no filter, said without a reader:

* it is unfinished: with something more behind it, it would be a filter;
* or there is a character in it that cannot stand where it stands, whatever comes behind it.

The second kind is a relation between what stands in front of the character, the character, and the
cause (`TextFault`).  It is made like the grammar: a fault lies in a filter, in a list or in an item
of its own, and in front of it everything is as it has to be.  The main statement is that the reader
reports such a fault at that very character, and that it reports the end of a text only where
something more would make it a filter.

Of two causes nothing is said: a list without operands, and a sign that is none.  They are placed
where the list and the sign start, and it takes the characters behind to see them.
-/
namespace Provisioning
namespace Filter

/-- A fault that lies at one character. -/
inductive ReadError.Pinned {Place : Type} : ReadError Place → Place → Prop
  | expected (wanted found : Char) (place : Place) : Pinned (.expected wanted found place) place
  | missingAttribute (place : Place) : Pinned (.missingAttribute place) place
  | unescapedParen (place : Place) : Pinned (.unescapedParen place) place
  | trailingInput (place : Place) : Pinned (.trailingInput place) place

/-- A value that could go on. -/
def IsValue (cs : List Char) : Prop := ∃ marks : List Mark, (∀ m ∈ marks, m.IsProper) ∧
  cs = written marks

/-- A text that would start an item where a filter has its body. -/
def IsStart (cs : List Char) : Prop :=
  ∀ c ∈ cs.head?, c ∉ ['&', '|', '!'] ∧ Text.isBlank c = false

/-- What stands in front of a character that cannot stand in a value, and why. -/
inductive ValueFault : List Char → Char → ReadError Unit → Prop
  | unescaped {before : List Char} (value : IsValue before) :
    ValueFault before '(' (.unescapedParen ())

/-- What stands in front of a character that cannot stand in an item, and why. -/
inductive ItemFault : List Char → Char → ReadError Unit → Prop
  | unnamed {c : Char} (sign : c ∈ ['=', '~', '<', '>', '(', ')']) :
    ItemFault [] c (.missingAttribute ())
  | value {run before : List Char} {name : String} {comparison : Comparison} {c : Char}
    {e : ReadError Unit} (naming : IsAttribute run name) (fault : ValueFault before c e) :
    ItemFault (run ++ sign comparison ++ before) c e

mutual

/-- What stands in front of a character that cannot stand in a filter, and why. -/
inductive FilterFault : List Char → Char → ReadError Unit → Prop
  | unopened {c : Char} (ink : Text.isBlank c = false) (other : c ≠ '(') :
    FilterFault [] c (.expected '(' c ())
  | item {space before : List Char} {c : Char} {e : ReadError Unit} (space_blank : IsSpace space)
    (start : IsStart (before ++ [c])) (fault : ItemFault before c e) :
    FilterFault ('(' :: (space ++ before)) c e
  | negated {space between before : List Char} {c : Char} {e : ReadError Unit}
    (space_blank : IsSpace space) (between_blank : IsSpace between)
    (fault : FilterFault before c e) :
    FilterFault ('(' :: (space ++ '!' :: (between ++ before))) c e
  | negation {space between cs after : List Char} {f : Filter} {c : Char}
    (space_blank : IsSpace space) (between_blank : IsSpace between) (filter : IsFilter cs f)
    (after_blank : IsSpace after) (ink : Text.isBlank c = false) (other : c ≠ ')') :
    FilterFault ('(' :: (space ++ '!' :: (between ++ cs ++ after))) c (.expected ')' c ())
  | operand {space before : List Char} {op c : Char} {e : ReadError Unit}
    (space_blank : IsSpace space) (junction : op ∈ ['&', '|']) (fault : ListFault before c e) :
    FilterFault ('(' :: (space ++ op :: before)) c e
  | operands {space cs : List Char} {parts : List Filter} {op c : Char}
    (space_blank : IsSpace space) (junction : op ∈ ['&', '|']) (list : IsList cs parts)
    (ink : Text.isBlank c = false) (other : c ∉ ['(', ')']) :
    FilterFault ('(' :: (space ++ op :: cs)) c (.expected ')' c ())

/-- What stands in front of a character that cannot stand in the filters of a list, and why. -/
inductive ListFault : List Char → Char → ReadError Unit → Prop
  | here {space before : List Char} {c : Char} {e : ReadError Unit} (space_blank : IsSpace space)
    (opened : before ≠ []) (fault : FilterFault before c e) : ListFault (space ++ before) c e
  | later {space cs before : List Char} {f : Filter} {c : Char} {e : ReadError Unit}
    (space_blank : IsSpace space) (filter : IsFilter cs f) (fault : ListFault before c e) :
    ListFault (space ++ cs ++ before) c e

end

/-- What stands in front of a character that cannot stand in a text, and why. -/
inductive TextFault : List Char → Char → ReadError Unit → Prop
  | filter {space before : List Char} {c : Char} {e : ReadError Unit} (space_blank : IsSpace space)
    (fault : FilterFault before c e) : TextFault (space ++ before) c e
  | trailing {space cs after : List Char} {f : Filter} {c : Char} (space_blank : IsSpace space)
    (filter : IsFilter cs f) (after_blank : IsSpace after) (ink : Text.isBlank c = false) :
    TextFault (space ++ cs ++ after) c (.trailingInput ())

/-! ### What a refusal says -/

/-- What is wrong with a text that is refused: it is the start of a `whole` one, it has a `fault`,
or it lacks a sign or operands. -/
inductive Refusal (whole : List Char → Prop) (fault : List Char → Char → ReadError Unit → Prop)
    (cs : List Char) (e : Fault) : Prop
  | unfinished (more : List Char) (ended : e = .unexpectedEnd) (goes_on : whole (cs ++ more))
  | misplaced {before behind : List Char} {c : Char} {cause : ReadError Unit}
    (placed : e = cause.map fun _ => c :: behind) (pinned : cause.Pinned ())
    (text : cs = before ++ c :: behind) (wrong : fault before c cause)
  | unsigned {place : List Char} (placed : e = .invalidOperator place)
  | empty {place : List Char} (placed : e = .emptyList place)

variable {whole whole' : List Char → Prop} {fault fault' : List Char → Char → ReadError Unit → Prop}

/-- A part of a text is refused, and for the same reason the text. -/
theorem Refusal.within {cs : List Char} {e : Fault} (h : Refusal whole fault cs e)
    (before : List Char) (goes_on : ∀ cs, whole cs → ∃ more, whole' (before ++ cs ++ more))
    (wrong : ∀ {inner behind c cause}, cs = inner ++ c :: behind → fault inner c cause →
      fault' (before ++ inner) c cause) :
    Refusal whole' fault' (before ++ cs) e := by
  cases h with
  | unfinished more ended h =>
    obtain ⟨more', hmore⟩ := goes_on _ h
    refine .unfinished (more ++ more') ended ?_
    simpa using hmore
  | misplaced placed pinned text h =>
    refine .misplaced placed pinned ?_ (wrong text h)
    rw [text, List.append_assoc]
  | unsigned placed => exact .unsigned placed
  | empty placed => exact .empty placed

/-- What fails fails in one of its parts. -/
theorem error_of_bind {α β : Type} {x : Except Fault α} {f : α → Except Fault β} {e : Fault}
    (h : x >>= f = .error e) : x = .error e ∨ ∃ a, x = .ok a ∧ f a = .error e := by
  cases x with
  | error e' =>
    cases h
    exact .inl rfl
  | ok a => exact .inr ⟨a, rfl, h⟩

/-! ### Values and items -/

theorem IsValue.nil : IsValue [] := ⟨[], by simp, rfl⟩

theorem IsValue.cons {cs : List Char} {m : Mark} (proper : m.IsProper) (h : IsValue cs) :
    IsValue (m.written ++ cs) := by
  obtain ⟨marks, hmarks, rfl⟩ := h
  exact ⟨m :: marks, List.forall_mem_cons.mpr ⟨proper, hmarks⟩, rfl⟩

theorem ValueFault.cons {before : List Char} {m : Mark} {c : Char} {e : ReadError Unit}
    (proper : m.IsProper) (h : ValueFault before c e) : ValueFault (m.written ++ before) c e := by
  cases h with
  | unescaped value => exact .unescaped (value.cons proper)

/-- A character in front of a value that is refused. -/
theorem Refusal.mark {cs : List Char} {e : Fault} (h : Refusal IsValue ValueFault cs e) {m : Mark}
    (proper : m.IsProper) : Refusal IsValue ValueFault (m.written ++ cs) e :=
  h.within m.written (fun _ value => ⟨[], by simpa using value.cons proper⟩)
    fun _ wrong => wrong.cons proper

theorem readValue_refusal {stars : Bool} {cs : List Char} {e : Fault}
    (h : readValue stars cs = .error e) : Refusal IsValue ValueFault cs e := by
  fun_induction readValue stars cs with
  | case1 =>
    cases h
    exact .unfinished [] rfl .nil
  | case2 =>
    cases h
    exact .unfinished ['\\'] rfl (IsValue.nil.cons (m := .escaped '\\') trivial)
  | case3 c cs ih =>
    obtain hread | ⟨_, _, hmade⟩ := error_of_bind h
    · exact (ih hread).mark (m := .escaped c) trivial
    · cases hmade
  | case4 => cases h
  | case5 cs =>
    cases h
    exact .misplaced rfl (.unescapedParen ()) rfl (.unescaped .nil)
  | case6 c cs hback hback' hclose hopen hstar ih =>
    obtain hread | ⟨_, _, hmade⟩ := error_of_bind h
    · simp only [Bool.and_eq_true, decide_eq_true_eq] at hstar
      obtain ⟨rfl, -⟩ := hstar
      exact (ih hread).mark (m := .plain '*') (by simp [Mark.IsProper])
    · cases hmade
  | case7 c cs hback hback' hclose hopen hstar ih =>
    have hplain : c ≠ '\\' := by
      rintro rfl
      cases cs with
      | nil => exact hback rfl rfl
      | cons d cs => exact hback' d cs rfl rfl
    obtain hread | ⟨_, _, hmade⟩ := error_of_bind h
    · exact (ih hread).mark (m := .plain c) (by simp [Mark.IsProper, hclose, hopen, hplain])
    · cases hmade

/-- Every value makes an item. -/
theorem IsValue.exists_item {run value : List Char} {name : String} (h : IsValue value)
    (naming : IsAttribute run name) (c : Comparison) :
    ∃ f, IsItem (run ++ sign c ++ value) f := by
  obtain ⟨marks, proper, rfl⟩ := h
  by_cases hc : c = .equal
  · subst hc
    obtain ⟨first, more, hpieces⟩ : ∃ first more, pieces marks = first :: more := by
      refine List.exists_cons_of_ne_nil ?_
      simp [pieces]
    have hequality : Equality name (pieces marks) (ofPieces name ⟨first, more⟩) := by
      rw [hpieces]
      exact (equality_iff (p := ⟨first, more⟩)).mpr rfl
    exact ⟨_, .equality naming proper hequality⟩
  · exact ⟨_, .comparison naming proper hc⟩

theorem IsAttribute.ne_nil {run : List Char} {name : String} (h : IsAttribute run name) :
    run ≠ [] := by
  rintro rfl
  exact h.named rfl

theorem IsStart.append {run cs : List Char} (h : IsStart (run ++ cs)) (some : run ≠ [])
    (cs' : List Char) : IsStart (run ++ cs') := by
  intro c hc
  rw [List.head?_append_of_ne_nil _ some] at hc
  refine h c ?_
  rwa [List.head?_append_of_ne_nil _ some]

/-- Where an item should start, a name is missing only if a sign or a parenthesis stands there. -/
theorem readAttribute_error {cs : List Char} {e : Fault} (h : readAttribute cs = .error e)
    (some : cs ≠ []) (start : IsStart cs) :
    e = .missingAttribute cs ∧ ∃ c behind, cs = c :: behind ∧
      c ∈ ['=', '~', '<', '>', '(', ')'] := by
  unfold readAttribute at h
  split at h
  · next htrim =>
    cases h
    obtain ⟨c, behind, rfl⟩ := List.exists_cons_of_ne_nil some
    refine ⟨rfl, c, behind, rfl, ?_⟩
    by_contra hc
    have hplain : isAttributeChar c = true := isAttributeChar_iff.mpr hc
    have hrun : (c :: behind).takeWhile isAttributeChar =
        c :: behind.takeWhile isAttributeChar := by simp [hplain]
    have hink : ∀ d ∈ ((c :: behind).takeWhile isAttributeChar).head?, Text.isBlank d = false := by
      rw [hrun]
      exact fun d hd => (start d hd).2
    obtain ⟨after, hafter, hwhole, -⟩ := exists_trimmed hink
    rw [htrim, List.nil_append, hrun] at hwhole
    have hblank : Text.isBlank c = true := hafter c (hwhole ▸ List.mem_cons_self)
    rw [(start c rfl).2] at hblank
    cases hblank
  · cases h

theorem readComparison_error {cs : List Char} {e : Fault} (h : readComparison cs = .error e) :
    cs = [] ∧ e = .unexpectedEnd ∨ ∃ place, e = .invalidOperator place := by
  unfold readComparison at h
  split at h <;> cases h
  · exact .inl ⟨rfl, rfl⟩
  · exact .inr ⟨_, rfl⟩

/-- A text that is an item and may stand where a filter has its body. -/
def IsOpening (cs : List Char) : Prop := IsStart cs ∧ ∃ f, IsItem cs f

theorem readItem_refusal {cs : List Char} {e : Fault} (h : readItem cs = .error e)
    (some : cs ≠ []) (start : IsStart cs) : Refusal IsOpening ItemFault cs e := by
  obtain hname | ⟨⟨name, cs₁⟩, hname, hafter⟩ := error_of_bind h
  · obtain ⟨rfl, c, behind, rfl, hsign⟩ := readAttribute_error hname some start
    exact .misplaced rfl (.missingAttribute ()) rfl (.unnamed hsign)
  obtain ⟨run, naming, rfl⟩ := readAttribute_sound hname
  have opening {value : List Char} (hvalue : IsValue value) (c : Comparison) :
      IsOpening (run ++ sign c ++ value) := by
    rw [List.append_assoc]
    refine ⟨start.append naming.ne_nil _, ?_⟩
    rw [← List.append_assoc]
    exact hvalue.exists_item naming c
  obtain hsign | ⟨⟨c, cs₂⟩, hsign, hbehind⟩ := error_of_bind hafter
  · obtain ⟨rfl, rfl⟩ | ⟨place, rfl⟩ := readComparison_error hsign
    · refine .unfinished (sign .equal) rfl ?_
      simpa using opening .nil .equal
    · exact .unsigned rfl
  obtain rfl := readComparison_sound hsign
  obtain hvalue | ⟨⟨p, cs₃⟩, -, hmade⟩ := error_of_bind hbehind
  · rw [← List.append_assoc]
    exact (readValue_refusal hvalue).within (run ++ sign c)
      (fun value hvalue => ⟨[], by simpa using opening hvalue c⟩) fun _ wrong => .value naming wrong
  · cases c <;> cases hmade

/-! ### Filters -/

/-- A text that stands for some filter. -/
def IsWhole (cs : List Char) : Prop := ∃ f, IsFilter cs f

/-- A text that stands for some list of filters. -/
def IsRow (cs : List Char) : Prop := ∃ parts, IsList cs parts

/-- An item between parentheses, with white space in front. -/
theorem IsOpening.isWhole {space cs : List Char} (h : IsOpening cs) (space_blank : IsSpace space) :
    IsWhole ('(' :: (space ++ cs) ++ [')']) := by
  obtain ⟨start, f, item⟩ := h
  have body : IsBody cs ([] ++ [')']) f := .item item start (by simp)
  refine ⟨f, ?_⟩
  simpa using IsFilter.enclosed space_blank .nil body

theorem exists_isOpening : ∃ cs, IsOpening cs := by
  have naming : IsAttribute ['a'] "a" := ⟨by simp, by decide, by decide⟩
  refine ⟨['a', '='], by simp [IsStart, Text.isBlank], ?_⟩
  exact IsValue.nil.exists_item naming .equal

theorem exists_isWhole : ∃ cs, IsWhole cs := by
  obtain ⟨cs, h⟩ := exists_isOpening
  exact ⟨_, h.isWhole .nil⟩

theorem expect_error {wanted : Char} {cs : List Char} {e : Fault}
    (h : expect wanted cs = .error e) :
    cs = [] ∧ e = .unexpectedEnd ∨
      ∃ c behind, cs = c :: behind ∧ c ≠ wanted ∧ e = .expected wanted c cs := by
  unfold expect at h
  split at h
  · cases h
    exact .inl ⟨rfl, rfl⟩
  · next c behind =>
    split at h
    · cases h
    · next hc =>
      cases h
      exact .inr ⟨c, behind, rfl, hc, rfl⟩

/-- A filter that nothing is missing from but the closing parenthesis does not have it. -/
theorem close_refusal {cs behind : List Char} {g : Filter} {e : Fault}
    (h : (do let rest ← expect ')' (Text.trimStart behind); Except.ok (g, rest)) = .error e)
    (closes : ∀ after, IsSpace after → IsWhole (cs ++ after ++ [')']))
    (wrong : ∀ {after c rest}, behind = after ++ c :: rest → IsSpace after →
      Text.isBlank c = false → c ≠ ')' → FilterFault (cs ++ after) c (.expected ')' c ())) :
    Refusal IsWhole FilterFault (cs ++ behind) e := by
  obtain ⟨after, hafter, hbehind, hink⟩ := exists_space behind
  obtain hclose | ⟨_, -, hmade⟩ := error_of_bind h
  · obtain ⟨hend, rfl⟩ | ⟨c, rest, hrest, hc, rfl⟩ := expect_error hclose
    · rw [hend, List.append_nil] at hbehind
      rw [hbehind]
      exact .unfinished [')'] rfl (closes after hafter)
    · rw [hrest] at hbehind hink ⊢
      refine .misplaced rfl (.expected ')' c ()) ?_ (wrong hbehind hafter (hink c rfl) hc)
      rw [hbehind, List.append_assoc]
  · cases hmade

/-- What is known of a text that a reader of filters refuses. -/
def FiltersRefused (depth : Nat) : Prop := ∀ ⦃cs e⦄, readFilter depth cs = .error e →
  cs.length < depth → (∀ c ∈ cs.head?, Text.isBlank c = false) → Refusal IsWhole FilterFault cs e

/-- What is known of a text that a reader of lists refuses. -/
def ListsRefused (depth : Nat) : Prop := ∀ ⦃cs e⦄, readList depth cs = .error e →
  cs.length + 1 < depth → Refusal IsRow ListFault cs e

/-- A list goes on as far as it can. -/
theorem readList_stop {depth : Nat} : ∀ {cs rest : List Char} {parts : List Filter},
    readList depth cs = .ok (parts, rest) → cs.length < depth →
      ∀ c ∈ rest.head?, Text.isBlank c = false ∧ c ≠ '(' := by
  induction depth with
  | zero => exact fun _ hlen => absurd hlen (Nat.not_lt_zero _)
  | succ depth ih =>
    intro cs rest parts h hlen
    obtain ⟨space, -, hcs, hink⟩ := exists_space cs
    unfold readList at h
    split at h
    · next cs' heq =>
      obtain ⟨⟨f, behind⟩, hread, hmore⟩ := exists_of_bind h
      obtain ⟨⟨fs, rest'⟩, hreads, hmade⟩ := exists_of_bind hmore
      cases hmade
      obtain ⟨taken, hfilter, htaken⟩ := (read_sound depth).1 hread
      obtain ⟨inner, rfl⟩ := hfilter.exists_cons
      refine ih hreads ?_
      rw [hcs, heq, htaken] at hlen
      simp only [List.length_append, List.length_cons] at hlen
      omega
    · next hother =>
      cases h
      refine fun c hc => ⟨hink c hc, ?_⟩
      rintro rfl
      obtain ⟨behind, hbehind⟩ := List.head?_eq_some_iff.mp hc
      exact hother _ hbehind

/-- There is no white space in front of what starts with none. -/
theorem IsSpace.eq_nil {space cs : List Char} (h : IsSpace space)
    (ink : ∀ c ∈ (space ++ cs).head?, Text.isBlank c = false) : space = [] := by
  cases space with
  | nil => rfl
  | cons c rest =>
    have hc : Text.isBlank c = false := ink c rfl
    rw [h c List.mem_cons_self] at hc
    cases hc

/-- A conjunction or a disjunction that is refused. -/
theorem operands_refusal {depth : Nat} (lists : ListsRefused depth) {space cs : List Char}
    {op : Char} {make : List Filter → Filter} {e : Fault} (space_blank : IsSpace space)
    (junction : op ∈ ['&', '|']) (hlen : cs.length + 1 < depth)
    (makes : ∀ {cs parts rest}, IsList cs parts → IsBody (op :: cs) rest (make parts))
    (h : (do
      let (parts, rest) ← readList depth cs
      if parts.isEmpty then .error (.emptyList cs)
      else do
        let rest ← expect ')' (Text.trimStart rest)
        .ok (make parts, rest)) = .error e) :
    Refusal IsWhole FilterFault ('(' :: (space ++ op :: cs)) e := by
  have hopen (cs : List Char) : '(' :: (space ++ op :: cs) = '(' :: (space ++ [op]) ++ cs := by simp
  have whole {cs after : List Char} {parts : List Filter} (list : IsList cs parts)
      (hafter : IsSpace after) : IsWhole ('(' :: (space ++ op :: cs) ++ after ++ [')']) := by
    refine ⟨make parts, ?_⟩
    simpa using IsFilter.enclosed space_blank hafter (makes list)
  obtain hread | ⟨⟨parts, behind⟩, hread, hclose⟩ := error_of_bind h
  · rw [hopen]
    refine (lists hread hlen).within _ ?_ fun _ wrong => ?_
    · rintro cs ⟨parts, list⟩
      refine ⟨[')'], ?_⟩
      simpa using whole list .nil
    · rw [← hopen]
      exact .operand space_blank junction wrong
  · dsimp only at hclose
    split at hclose
    · cases hclose
      exact .empty rfl
    · next hsome =>
      obtain ⟨taken, list, rfl⟩ := (read_sound depth).2.cons hread (by simpa using hsome)
      have hstop := readList_stop hread (Nat.lt_of_succ_lt hlen)
      have htext : '(' :: (space ++ op :: (taken ++ behind)) =
          '(' :: (space ++ op :: taken) ++ behind := by simp
      rw [htext]
      refine close_refusal hclose (fun after hafter => whole list hafter) ?_
      intro after c rest hbehind hafter hink hc
      obtain rfl : after = [] := hafter.eq_nil fun d hd => (hstop d (hbehind ▸ hd)).1
      have hc' : c ≠ '(' := (hstop c (by rw [hbehind]; rfl)).2
      rw [List.append_nil]
      exact .operands space_blank junction list hink (by simp [hc, hc'])

/-- A negation that is refused. -/
theorem negated_refusal {depth : Nat} (filters : FiltersRefused depth) {space cs : List Char}
    {e : Fault} (space_blank : IsSpace space) (hlen : cs.length < depth)
    (h : (do
      let (part, rest) ← readFilter depth (Text.trimStart cs)
      let rest ← expect ')' (Text.trimStart rest)
      Except.ok (negate part, rest)) = .error e) :
    Refusal IsWhole FilterFault ('(' :: (space ++ '!' :: cs)) e := by
  obtain ⟨between, hbetween, hcs, hink⟩ := exists_space cs
  have whole {cs after : List Char} {part : Filter} (filter : IsFilter cs part)
      (hafter : IsSpace after) :
      IsWhole ('(' :: (space ++ '!' :: (between ++ cs)) ++ after ++ [')']) := by
    refine ⟨negate part, ?_⟩
    simpa using IsFilter.enclosed space_blank hafter (.negate hbetween filter)
  have hopen (cs : List Char) : '(' :: (space ++ '!' :: (between ++ cs)) =
      '(' :: (space ++ '!' :: between) ++ cs := by simp
  rw [hcs, List.length_append] at hlen
  rw [hcs]
  obtain hread | ⟨⟨part, behind⟩, hread, hclose⟩ := error_of_bind h
  · rw [hopen]
    refine (filters hread (by omega) hink).within _ ?_ fun _ wrong => ?_
    · rintro cs ⟨part, filter⟩
      refine ⟨[')'], ?_⟩
      simpa using whole filter .nil
    · rw [← hopen]
      exact .negated space_blank hbetween wrong
  · obtain ⟨taken, filter, htaken⟩ := (read_sound depth).1 hread
    have htext : '(' :: (space ++ '!' :: (between ++ Text.trimStart cs)) =
        '(' :: (space ++ '!' :: (between ++ taken)) ++ behind := by simp [htaken]
    rw [htext]
    refine close_refusal hclose (fun after hafter => whole filter hafter) ?_
    intro after c rest _ hafter hink hc
    have := FilterFault.negation space_blank hbetween filter hafter hink hc
    simpa using this

/-- An item that is refused. -/
theorem opening_refusal {space cs : List Char} {e : Fault} (space_blank : IsSpace space)
    (some : cs ≠ []) (start : IsStart cs)
    (h : (do
      let (f, rest) ← readItem cs
      let rest ← expect ')' (Text.trimStart rest)
      Except.ok (f, rest)) = .error e) :
    Refusal IsWhole FilterFault ('(' :: (space ++ cs)) e := by
  obtain hread | ⟨⟨f, behind⟩, hread, hclose⟩ := error_of_bind h
  · refine (readItem_refusal hread some start).within ('(' :: space) (fun cs opening => ?_) ?_
    · exact ⟨[')'], opening.isWhole space_blank⟩
    · intro before behind c cause htext wrong
      refine .item space_blank ?_ wrong
      rw [htext, List.append_cons] at start
      intro d hd
      refine start d ?_
      rwa [List.head?_append_of_ne_nil _ (by simp)]
  · -- A value goes on up to the closing parenthesis.
    obtain ⟨taken, -, -, hstop⟩ := readItem_sound hread
    obtain ⟨rest, rfl⟩ := List.head?_eq_some_iff.mp hstop
    cases hclose

/-- Only at a character that does not open a filter is nothing wrong in front of it. -/
theorem FilterFault.opened {before : List Char} {e : ReadError Unit}
    (h : FilterFault before '(' e) : before ≠ [] := by
  rintro rfl
  cases h with
  | unopened ink other => exact other rfl

theorem readFilter_refusal {depth : Nat} (filters : FiltersRefused depth)
    (lists : ListsRefused depth) : FiltersRefused (depth + 1) := by
  intro cs e h hlen hink
  unfold readFilter at h
  obtain hopen | ⟨cs₁, hopen, hbody⟩ := error_of_bind h
  · obtain ⟨rfl, rfl⟩ | ⟨c, behind, rfl, hc, rfl⟩ := expect_error hopen
    · obtain ⟨cs, whole⟩ := exists_isWhole
      exact .unfinished cs rfl whole
    · exact .misplaced rfl (.expected '(' c ()) rfl (.unopened (hink c rfl) hc)
  obtain rfl := expect_sound hopen
  clear h hopen hink
  obtain ⟨space, hspace, hcs, hink⟩ := exists_space cs₁
  rw [List.length_cons, hcs, List.length_append] at hlen
  rw [hcs]
  dsimp only at hbody
  split at hbody
  · next heq =>
    cases hbody
    obtain ⟨cs, opening⟩ := exists_isOpening
    rw [heq, List.append_nil]
    exact .unfinished (cs ++ [')']) rfl (by simpa using opening.isWhole hspace)
  · next cs heq =>
    rw [heq, List.length_cons] at hlen
    rw [heq]
    exact operands_refusal lists hspace (by simp) (by omega) .all hbody
  · next cs heq =>
    rw [heq, List.length_cons] at hlen
    rw [heq]
    exact operands_refusal lists hspace (by simp) (by omega) .any hbody
  · next cs heq =>
    rw [heq, List.length_cons] at hlen
    rw [heq]
    exact negated_refusal filters hspace (by omega) hbody
  · next hend hall hany hnot =>
    refine opening_refusal hspace hend (fun c hc => ⟨fun hop => ?_, hink c hc⟩) hbody
    obtain ⟨behind, hbehind⟩ := List.head?_eq_some_iff.mp hc
    simp only [List.mem_cons, List.not_mem_nil, or_false] at hop
    obtain rfl | rfl | rfl := hop
    · exact hall _ hbehind
    · exact hany _ hbehind
    · exact hnot _ hbehind

theorem readList_refusal {depth : Nat} (filters : FiltersRefused depth)
    (lists : ListsRefused depth) : ListsRefused (depth + 1) := by
  intro cs e h hlen
  unfold readList at h
  obtain ⟨space, hspace, hcs, hink⟩ := exists_space cs
  rw [hcs, List.length_append] at hlen
  rw [hcs]
  split at h
  · next cs' heq =>
    rw [heq] at hlen hink ⊢
    obtain hread | ⟨⟨f, behind⟩, hread, hmore⟩ := error_of_bind h
    · refine (filters hread (by omega) hink).within space ?_ fun htext wrong => ?_
      · rintro cs ⟨f, filter⟩
        exact ⟨[], [f], .last hspace filter .nil⟩
      · refine .here hspace ?_ wrong
        rintro rfl
        cases htext
        exact wrong.opened rfl
    · obtain ⟨taken, filter, htaken⟩ := (read_sound depth).1 hread
      obtain hreads | ⟨_, -, hmade⟩ := error_of_bind hmore
      · rw [htaken, List.length_append] at hlen
        rw [htaken, ← List.append_assoc]
        obtain ⟨inner, rfl⟩ := filter.exists_cons
        rw [List.length_cons] at hlen
        refine (lists hreads (by omega)).within _ ?_ fun _ wrong => .later hspace filter wrong
        rintro cs ⟨fs, list⟩
        refine ⟨[], f :: fs, ?_⟩
        simpa using IsList.next hspace filter list
      · cases hmade
  · cases h

theorem read_refusal (depth : Nat) : FiltersRefused depth ∧ ListsRefused depth := by
  induction depth with
  | zero => exact ⟨fun _ _ _ h => absurd h (Nat.not_lt_zero _), fun _ _ _ h =>
      absurd h (Nat.not_lt_zero _)⟩
  | succ depth ih => exact ⟨readFilter_refusal ih.1 ih.2, readList_refusal ih.1 ih.2⟩

theorem readText_refusal {cs : List Char} {e : Fault} (h : readText cs = .error e) :
    Refusal (fun cs => ∃ f, IsText cs f) TextFault cs e := by
  obtain ⟨space, hspace, hcs, hink⟩ := exists_space cs
  obtain hread | ⟨⟨f, behind⟩, hread, hend⟩ := error_of_bind h
  · have hlen : (Text.trimStart cs).length < cs.length + 1 := by
      have := congrArg List.length hcs
      rw [List.length_append] at this
      omega
    rw [hcs]
    refine ((read_refusal _).1 hread hlen hink).within space ?_ fun _ wrong => .filter hspace wrong
    rintro cs ⟨f, filter⟩
    exact ⟨[], f, .surrounded hspace filter .nil⟩
  · obtain ⟨taken, filter, htaken⟩ := (read_sound _).1 hread
    obtain ⟨after, hafter, hbehind, hink⟩ := exists_space behind
    dsimp only at hend
    split at hend
    · cases hend
    · next hsome =>
      cases hend
      obtain ⟨c, rest, hrest⟩ := List.exists_cons_of_ne_nil hsome
      rw [hrest] at hbehind hink ⊢
      refine .misplaced rfl (.trailingInput ()) ?_ (.trailing hspace filter hafter (hink c rfl))
      rw [hcs, htaken, hbehind]
      simp

/-! ### What is wrong is refused -/

theorem readValue_fault {before : List Char} {c : Char} {e : ReadError Unit}
    (h : ValueFault before c e) (stars : Bool) (behind : List Char) :
    readValue stars (before ++ c :: behind) = .error (e.map fun _ => c :: behind) := by
  obtain ⟨marks, proper, rfl⟩ := h
  induction marks with
  | nil => simp [written, readValue, ReadError.map]
  | cons m marks ih =>
    have hread := ih fun m hm => proper m (List.mem_cons_of_mem _ hm)
    cases m with
    | escaped d =>
      show readValue stars ('\\' :: d :: (written marks ++ '(' :: behind)) = _
      simp [readValue, hread, bind, Except.bind]
    | plain d =>
      have hd : d ∉ ['(', ')', '\\'] := proper _ List.mem_cons_self
      simp only [List.mem_cons, List.not_mem_nil, or_false, not_or] at hd
      show readValue stars (d :: (written marks ++ '(' :: behind)) = _
      by_cases hstar : d = '*' ∧ stars = true
      · obtain ⟨rfl, rfl⟩ := hstar
        simp [readValue, hread, bind, Except.bind]
      · simp [readValue, hread, bind, Except.bind, hd, hstar]

theorem readItem_fault {before : List Char} {c : Char} {e : ReadError Unit}
    (h : ItemFault before c e) (behind : List Char) :
    readItem (before ++ c :: behind) = .error (e.map fun _ => c :: behind) := by
  cases h with
  | unnamed sign =>
    have hc : isAttributeChar c = false := by
      rw [← Bool.not_eq_true, isAttributeChar_iff, not_not]
      exact sign
    have hrun : Text.trimmed ((c :: behind).takeWhile isAttributeChar) = [] := by simp [hc]; rfl
    have hname : readAttribute (c :: behind) = .error (.missingAttribute (c :: behind)) := by
      unfold readAttribute
      rw [hrun]
    simp [readItem, hname, bind, Except.bind, ReadError.map]
  | @value run before name comparison _ _ naming fault =>
    unfold readItem
    rw [List.append_assoc, List.append_assoc, readAttribute_complete naming (sign_head _ _)]
    simp [bind, Except.bind, readComparison_sign, readValue_fault fault]

/-- What is known of a reader of filters in front of a fault. -/
def FiltersStopped (depth : Nat) : Prop := ∀ ⦃before c e⦄, FilterFault before c e →
  before.length < depth → ∀ behind,
    readFilter depth (before ++ c :: behind) = .error (e.map fun _ => c :: behind)

/-- What is known of a reader of lists in front of a fault. -/
def ListsStopped (depth : Nat) : Prop := ∀ ⦃before c e⦄, ListFault before c e →
  before.length + 1 < depth → ∀ behind,
    readList depth (before ++ c :: behind) = .error (e.map fun _ => c :: behind)

theorem expect_other {wanted c : Char} (h : c ≠ wanted) (behind : List Char) :
    expect wanted (c :: behind) = .error (.expected wanted c (c :: behind)) := by
  simp [expect, h]

section Bodies

variable {space : List Char} (space_blank : IsSpace space) (depth : Nat)

include space_blank

/-- A filter whose body is an item. -/
theorem readFilter_item {cs : List Char} (some : cs ≠ []) (start : IsStart cs) :
    readFilter (depth + 1) ('(' :: (space ++ cs)) = (do
      let (f, rest) ← readItem cs
      let rest ← expect ')' (Text.trimStart rest)
      .ok (f, rest)) := by
  obtain ⟨c, cs, rfl⟩ := List.exists_cons_of_ne_nil some
  obtain ⟨hop, hink⟩ := start c rfl
  simp only [List.mem_cons, List.not_mem_nil, or_false, not_or] at hop
  unfold readFilter
  rw [expect_complete]
  simp only [bind, Except.bind, trimStart_space space_blank,
    Text.trimStart_cons_of_not_blank hink]
  split
  · next heq => cases heq
  · next heq => exact absurd (List.cons.inj heq).1 hop.1
  · next heq => exact absurd (List.cons.inj heq).1 hop.2.1
  · next heq => exact absurd (List.cons.inj heq).1 hop.2.2
  · rfl

/-- A filter whose body is a negation. -/
theorem readFilter_negate (cs : List Char) :
    readFilter (depth + 1) ('(' :: (space ++ '!' :: cs)) = (do
      let (part, rest) ← readFilter depth (Text.trimStart cs)
      let rest ← expect ')' (Text.trimStart rest)
      .ok (negate part, rest)) := by
  have hbody : Text.trimStart (space ++ '!' :: cs) = '!' :: cs := by
    rw [trimStart_space space_blank, Text.trimStart_cons_of_not_blank (by decide)]
  rw [readFilter, expect_complete]
  simp only [bind, Except.bind, hbody]

/-- A filter whose body is a conjunction or a disjunction. -/
theorem readFilter_operands {op : Char} (junction : op ∈ ['&', '|']) (cs : List Char) :
    ∃ make : List Filter → Filter, readFilter (depth + 1) ('(' :: (space ++ op :: cs)) = (do
      let (parts, rest) ← readList depth cs
      if parts.isEmpty then .error (.emptyList cs)
      else do
        let rest ← expect ')' (Text.trimStart rest)
        .ok (make parts, rest)) := by
  obtain rfl | rfl : op = '&' ∨ op = '|' := by simpa using junction
  · have hbody : Text.trimStart (space ++ '&' :: cs) = '&' :: cs := by
      rw [trimStart_space space_blank, Text.trimStart_cons_of_not_blank (by decide)]
    refine ⟨all, ?_⟩
    rw [readFilter, expect_complete]
    simp only [bind, Except.bind, hbody]
  · have hbody : Text.trimStart (space ++ '|' :: cs) = '|' :: cs := by
      rw [trimStart_space space_blank, Text.trimStart_cons_of_not_blank (by decide)]
    refine ⟨any, ?_⟩
    rw [readFilter, expect_complete]
    simp only [bind, Except.bind, hbody]

/-- A list in which a filter follows. -/
theorem readList_open (cs : List Char) :
    readList (depth + 1) (space ++ '(' :: cs) = (do
      let (f, rest) ← readFilter depth ('(' :: cs)
      let (fs, rest) ← readList depth rest
      .ok (f :: fs, rest)) := by
  have hopen : Text.trimStart (space ++ '(' :: cs) = '(' :: cs := by
    rw [trimStart_space space_blank, Text.trimStart_cons_of_not_blank (by decide)]
  rw [readList]
  simp only [hopen]

end Bodies

/-- Nothing is skipped in front of a fault. -/
theorem FilterFault.trimStart {before : List Char} {c : Char} {e : ReadError Unit}
    (h : FilterFault before c e) (behind : List Char) :
    Text.trimStart (before ++ c :: behind) = before ++ c :: behind := by
  cases h with
  | unopened ink other => exact Text.trimStart_cons_of_not_blank ink
  | item | negated | negation | operand | operands =>
    exact Text.trimStart_cons_of_not_blank (by decide)

theorem readFilter_fault {depth : Nat} (filters : FiltersStopped depth)
    (lists : ListsStopped depth) : FiltersStopped (depth + 1) := by
  intro before c e h hlen behind
  cases h with
  | unopened ink other =>
    rw [List.nil_append, readFilter, expect_other other]
    rfl
  | @item space before _ _ hspace start fault =>
    have htext : '(' :: (space ++ before) ++ c :: behind =
        '(' :: (space ++ (before ++ c :: behind)) := by simp
    have hstart : IsStart (before ++ c :: behind) := by
      have hshown : IsStart (before ++ [c] ++ []) := by rwa [List.append_nil]
      rw [List.append_cons]
      exact hshown.append (by simp) behind
    rw [htext, readFilter_item hspace depth (by simp) hstart, readItem_fault fault]
    rfl
  | @negated space between before _ _ hspace hbetween fault =>
    have htext : '(' :: (space ++ '!' :: (between ++ before)) ++ c :: behind =
        '(' :: (space ++ '!' :: (between ++ (before ++ c :: behind))) := by simp
    have hshort : before.length < depth := by
      simp only [List.length_append, List.length_cons] at hlen
      omega
    rw [htext, readFilter_negate hspace, trimStart_space hbetween, fault.trimStart,
      filters fault hshort]
    rfl
  | @negation space between cs after f _ hspace hbetween filter hafter ink other =>
    have htext : '(' :: (space ++ '!' :: (between ++ cs ++ after)) ++ c :: behind =
        '(' :: (space ++ '!' :: (between ++ (cs ++ (after ++ c :: behind)))) := by simp
    have hshort : cs.length ≤ depth := by
      simp only [List.length_append, List.length_cons] at hlen
      omega
    have hread := (read_complete depth).1 filter hshort (after ++ c :: behind)
    have hink : Text.trimStart (cs ++ (after ++ c :: behind)) = cs ++ (after ++ c :: behind) := by
      obtain ⟨inner, rfl⟩ := filter.exists_cons
      exact Text.trimStart_cons_of_not_blank (by decide)
    rw [htext, readFilter_negate hspace, trimStart_space hbetween, hink, hread]
    simp only [bind, Except.bind, trimStart_space hafter, Text.trimStart_cons_of_not_blank ink,
      expect_other other]
    rfl
  | @operand space before op _ _ hspace junction fault =>
    have htext : '(' :: (space ++ op :: before) ++ c :: behind =
        '(' :: (space ++ op :: (before ++ c :: behind)) := by simp
    have hshort : before.length + 1 < depth := by
      simp only [List.length_append, List.length_cons] at hlen
      omega
    obtain ⟨make, hfilter⟩ :=
      readFilter_operands hspace depth junction (before ++ c :: behind)
    rw [htext, hfilter, lists fault hshort]
    rfl
  | @operands space cs parts op _ hspace junction list ink other =>
    have htext : '(' :: (space ++ op :: cs) ++ c :: behind =
        '(' :: (space ++ op :: (cs ++ c :: behind)) := by simp
    have hshort : cs.length < depth := by
      simp only [List.length_append, List.length_cons] at hlen
      omega
    have htrim : Text.trimStart (c :: behind) = c :: behind :=
      Text.trimStart_cons_of_not_blank ink
    simp only [List.mem_cons, List.not_mem_nil, or_false, not_or] at other
    have hread := (read_complete depth).2 list hshort (c :: behind) (by simp [htrim, other])
    obtain ⟨make, hfilter⟩ := readFilter_operands hspace depth junction (cs ++ c :: behind)
    rw [htext, hfilter, hread]
    simp only [bind, Except.bind, List.isEmpty_iff, list.ne_nil, htrim, expect_other other.2]
    rfl

theorem FilterFault.exists_cons {before : List Char} {c : Char} {e : ReadError Unit}
    (h : FilterFault before c e) (some : before ≠ []) : ∃ inner, before = '(' :: inner := by
  cases h with
  | unopened => exact absurd rfl some
  | item | negated | negation | operand | operands => exact ⟨_, rfl⟩

theorem readList_fault {depth : Nat} (filters : FiltersStopped depth)
    (lists : ListsStopped depth) : ListsStopped (depth + 1) := by
  intro before c e h hlen behind
  cases h with
  | @here space before _ _ hspace opened fault =>
    rw [List.length_append] at hlen
    have hread := filters fault (by omega) behind
    obtain ⟨inner, rfl⟩ := fault.exists_cons opened
    rw [List.append_assoc, List.cons_append, readList_open hspace, ← List.cons_append, hread]
    rfl
  | @later space cs before f _ _ hspace filter fault =>
    simp only [List.length_append] at hlen
    have hread := (read_complete depth).1 filter (by omega) (before ++ c :: behind)
    obtain ⟨inner, rfl⟩ := filter.exists_cons
    rw [List.length_cons] at hlen
    have hreads := lists fault (by omega) behind
    rw [List.append_assoc, List.append_assoc, List.cons_append, readList_open hspace,
      ← List.cons_append, hread]
    simp only [bind, Except.bind, hreads]

theorem read_fault (depth : Nat) : FiltersStopped depth ∧ ListsStopped depth := by
  induction depth with
  | zero => exact ⟨fun _ _ _ _ h => absurd h (Nat.not_lt_zero _), fun _ _ _ _ h =>
      absurd h (Nat.not_lt_zero _)⟩
  | succ depth ih => exact ⟨readFilter_fault ih.1 ih.2, readList_fault ih.1 ih.2⟩

theorem readText_fault {before : List Char} {c : Char} {e : ReadError Unit}
    (h : TextFault before c e) (behind : List Char) :
    readText (before ++ c :: behind) = .error (e.map fun _ => c :: behind) := by
  cases h with
  | @filter space before _ _ hspace fault =>
    have hread := (read_fault ((space ++ before ++ c :: behind).length + 1)).1 fault
      (by simp only [List.length_append]; omega) behind
    have htrim : Text.trimStart (space ++ before ++ c :: behind) = before ++ c :: behind := by
      rw [List.append_assoc, trimStart_space hspace, fault.trimStart]
    simp only [readText, htrim, hread, bind, Except.bind]
  | @trailing space cs after f _ hspace filter hafter ink =>
    have hread := (read_complete ((space ++ cs ++ after ++ c :: behind).length + 1)).1 filter
      (by simp only [List.length_append]; omega) (after ++ c :: behind)
    have htrim : Text.trimStart (space ++ cs ++ after ++ c :: behind) =
        cs ++ (after ++ c :: behind) := by
      obtain ⟨inner, rfl⟩ := filter.exists_cons
      rw [List.append_assoc, List.append_assoc, trimStart_space hspace]
      exact Text.trimStart_cons_of_not_blank (by decide)
    have hrest : Text.trimStart (after ++ c :: behind) = c :: behind := by
      rw [trimStart_space hafter, Text.trimStart_cons_of_not_blank ink]
    simp only [readText, htrim, hread, bind, Except.bind, hrest]
    rfl

/-! ### Texts -/

theorem ReadError.map_map {α β γ : Type} (e : ReadError α) (f : α → β) (g : β → γ) :
    (e.map f).map g = e.map (g ∘ f) := by
  cases e <;> rfl

theorem parse_error_iff {s : String} {e : ReadError Nat} :
    parse s = .error e ↔ ∃ fault, readText s.toList = .error fault ∧
      e = fault.map fun rest => s.toList.length - rest.length := by
  unfold parse
  cases h : readText s.toList <;> simp [h, Except.mapError, eq_comm]

/-- A text with something wrong at a character is refused at that character. -/
theorem parse_fault {s : String} {before behind : List Char} {c : Char} {cause : ReadError Unit}
    (h : TextFault before c cause) (text : s.toList = before ++ c :: behind) :
    parse s = .error (cause.map fun _ => before.length) := by
  refine parse_error_iff.mpr ⟨_, text ▸ readText_fault h behind, ?_⟩
  rw [ReadError.map_map, text]
  simp [Function.comp_def]

theorem ReadError.Pinned.place_eq {α β : Type} {e : ReadError α} {p q : β}
    (h : (e.map fun _ => p).Pinned q) : q = p := by
  cases e <;> cases h <;> rfl

/-- A text that is refused at a character has something wrong at that character. -/
theorem exists_fault {s : String} {e : ReadError Nat} {o : Nat} (h : parse s = .error e)
    (pinned : e.Pinned o) : ∃ before c behind cause, s.toList = before ++ c :: behind ∧
      TextFault before c cause ∧ before.length = o ∧ e = cause.map fun _ => o := by
  obtain ⟨fault, hread, rfl⟩ := parse_error_iff.mp h
  cases readText_refusal hread with
  | unfinished more ended goes_on =>
    subst ended
    cases pinned
  | @misplaced before behind c cause placed _ text wrong =>
    subst placed
    have hplace : (ReadError.map (fun rest => s.toList.length - rest.length)
        (cause.map fun _ => c :: behind)) = cause.map fun _ => before.length := by
      rw [ReadError.map_map, text]
      simp [Function.comp_def]
    rw [hplace] at pinned ⊢
    obtain rfl := pinned.place_eq
    exact ⟨before, c, behind, cause, text, wrong, rfl, rfl⟩
  | unsigned placed =>
    subst placed
    cases pinned
  | empty placed =>
    subst placed
    cases pinned

/-- A text that is refused because it ends goes on to a filter. -/
theorem exists_completion {s : String} (h : parse s = .error .unexpectedEnd) :
    ∃ (t : String) (f : Filter), parse (s ++ t) = .ok f := by
  obtain ⟨fault, hread, hend⟩ := parse_error_iff.mp h
  cases readText_refusal hread with
  | unfinished more ended goes_on =>
    obtain ⟨f, text⟩ := goes_on
    refine ⟨String.ofList more, f, (parse_eq_ok_iff _ f).mpr ?_⟩
    rwa [String.toList_append, String.toList_ofList]
  | misplaced placed pinned =>
    subst placed
    cases pinned <;> cases hend
  | unsigned placed =>
    subst placed
    cases hend
  | empty placed =>
    subst placed
    cases hend

/-- **Faults.**  Whatever text is refused for a character, the reader names a character of the text,
and it refuses in the same words every text that is the same up to and with that character.
Whatever text is refused because it ends, there is something that makes it a filter when it is
written behind. -/
theorem parse_error_points_at_fault (s : String) :
    (∀ (e : ReadError Nat) (o : Nat), parse s = .error e → e.Pinned o →
      o < s.length ∧ ∀ s' : String, s'.toList.take (o + 1) = s.toList.take (o + 1) →
        parse s' = .error e) ∧
    (parse s = .error .unexpectedEnd → ∃ (t : String) (f : Filter), parse (s ++ t) = .ok f) := by
  refine ⟨fun e o h pinned => ?_, exists_completion⟩
  obtain ⟨before, c, behind, cause, text, wrong, rfl, rfl⟩ := exists_fault h pinned
  constructor
  · rw [← String.length_toList, text, List.length_append, List.length_cons]
    omega
  · intro s' same
    have hprefix : s'.toList.take (before.length + 1) = before ++ [c] := by
      rw [same, text, List.append_cons, List.take_left' (by simp)]
    have hs' : s'.toList = before ++ c :: s'.toList.drop (before.length + 1) := by
      rw [List.append_cons, ← hprefix, List.take_append_drop]
    exact parse_fault wrong hs'

/-- A list is left at the first character that is no parenthesis; a backslash waits for a character
to go with it. -/
theorem parse_error_points_at_fault_operand :
    parse "(&(a=1) x" = .error (.expected ')' 'x' 8) ∧
    parse "(&(a=1) x)" = .error (.expected ')' 'x' 8) ∧
    parse "(!(a=\\" = .error .unexpectedEnd ∧
    ∃ (t : String) (f : Filter), parse ("(!(a=\\" ++ t) = .ok f := by
  have hlist : parse "(&(a=1) x" = .error (.expected ')' 'x' 8) := by rfl
  have hnegation : parse "(!(a=\\" = .error .unexpectedEnd := by rfl
  obtain ⟨-, same⟩ := (parse_error_points_at_fault "(&(a=1) x").1 _ 8 hlist (.expected _ _ _)
  exact ⟨hlist, same "(&(a=1) x)" (by rfl), hnegation,
    (parse_error_points_at_fault "(!(a=\\").2 hnegation⟩

end Filter
end Provisioning
