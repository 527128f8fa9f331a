import Mathlib.Data.List.Basic
import Provisioning.Proofs.Grammar

/-! # Reading back what is printed

Which filters are read back from their own written form.  A filter that comes out of the reader has
names without white space around them, lists that are not empty, and patterns without empty parts
(`IsText.formed`).  Printing such a filter and reading it again changes one thing only: a pattern
without parts is written as the presence of its attribute, and so comes back as that
(`Formed.isFilter_chars`).  Both together leave the well-formed filters, and no others.
-/
namespace Provisioning
namespace Filter

/-! ### What is well formed -/

/-- A name that an item may be written with. -/
structure IsName (name : String) : Prop where
  named : name.toList ≠ []
  plain : ∀ c ∈ name.toList, c ∉ ['=', '~', '<', '>', '(', ')']
  start : ∀ c ∈ name.toList.head?, c ∉ ['&', '|', '!'] ∧ Text.isBlank c = false
  stop : ∀ c ∈ name.toList.getLast?, Text.isBlank c = false

/-- A pattern none of whose parts is empty. -/
structure IsFilled (p : Pattern) : Prop where
  initial : ∀ part ∈ p.initial, part ≠ ""
  middle : ∀ part ∈ p.middle, part ≠ ""
  final : ∀ part ∈ p.final, part ≠ ""

/-- A filter with operands in every list, with a proper name for every attribute, and with patterns
that are `fit`. -/
inductive Formed (fit : Pattern → Prop) : Filter → Prop
  | all {parts : List Filter} (some : parts ≠ []) (formed : ∀ p ∈ parts, Formed fit p) :
    Formed fit (.all parts)
  | any {parts : List Filter} (some : parts ≠ []) (formed : ∀ p ∈ parts, Formed fit p) :
    Formed fit (.any parts)
  | negate {part : Filter} (formed : Formed fit part) : Formed fit (.negate part)
  | present {name : String} (naming : IsName name) : Formed fit (.present name)
  | item {name : String} (naming : IsName name) (c : Comparison) (value : String) :
    Formed fit (.item name c value)
  | substring {name : String} {p : Pattern} (naming : IsName name) (fits : fit p) :
    Formed fit (.substring name p)

theorem Formed.mono {fit fit' : Pattern → Prop} {f : Filter} (h : f.Formed fit)
    (weaker : ∀ p, fit p → fit' p) : f.Formed fit' := by
  induction h with
  | all some formed ih => exact .all some ih
  | any some formed ih => exact .any some ih
  | negate formed ih => exact .negate ih
  | present naming => exact .present naming
  | item naming c value => exact .item naming c value
  | substring naming fits => exact .substring naming (weaker _ fits)

/-- A pattern that asks for something: it has a part, and none of its parts is empty. -/
structure IsPattern (p : Pattern) : Prop extends IsFilled p where
  some : p.initial ≠ none ∨ p.middle ≠ [] ∨ p.final ≠ none

/-- A filter that has a written form of its own. -/
def WellFormed (f : Filter) : Prop := f.Formed IsPattern

/-! ### What the reader gives is formed -/

theorem exists_trimmed {cs : List Char} (start : ∀ c ∈ cs.head?, Text.isBlank c = false) :
    ∃ after, IsSpace after ∧ cs = Text.trimmed cs ++ after ∧
      ∀ c ∈ (Text.trimmed cs).getLast?, Text.isBlank c = false := by
  have hstart : Text.trimStart cs = cs := trimStart_eq_self start
  obtain ⟨after, hafter, hcs, hhead⟩ := exists_space cs.reverse
  refine ⟨after.reverse, fun c hc => hafter c (List.mem_reverse.mp hc), ?_, fun c hc => ?_⟩
  · unfold Text.trimmed Text.trimEnd
    rw [hstart, ← List.reverse_inj, List.reverse_append, List.reverse_reverse,
      List.reverse_reverse]
    exact hcs
  · unfold Text.trimmed Text.trimEnd at hc
    rw [hstart, List.getLast?_reverse] at hc
    exact hhead c hc

/-- White space on both sides is dropped, and nothing else. -/
theorem trimmed_surrounded {before core after : List Char} (hbefore : IsSpace before)
    (hafter : IsSpace after) (start : ∀ c ∈ core.head?, Text.isBlank c = false)
    (stop : ∀ c ∈ core.getLast?, Text.isBlank c = false) :
    Text.trimmed (before ++ core ++ after) = core := by
  have hreverse : IsSpace after.reverse := fun c hc => hafter c (List.mem_reverse.mp hc)
  cases core with
  | nil =>
    rw [List.append_nil, Text.trimmed, trimStart_space hbefore, hafter.trimStart_eq]
    rfl
  | cons c core =>
    have hstart : Text.trimStart (before ++ (c :: core ++ after)) = c :: core ++ after := by
      rw [trimStart_space hbefore]
      exact Text.trimStart_cons_of_not_blank (start c rfl)
    have hstop : Text.trimStart (c :: core).reverse = (c :: core).reverse :=
      trimStart_eq_self fun d hd => stop d (by rwa [List.head?_reverse] at hd)
    rw [List.append_assoc, Text.trimmed, hstart, Text.trimEnd, List.reverse_append,
      ← Text.trimStart, trimStart_space hreverse, hstop, List.reverse_reverse]

/-- A run of characters that starts an item is a name with white space behind it. -/
theorem IsAttribute.isName {run : List Char} {name : String} (h : IsAttribute run name)
    (start : ∀ c ∈ run.head?, c ∉ ['&', '|', '!'] ∧ Text.isBlank c = false) : IsName name := by
  obtain ⟨after, -, hrun, hlast⟩ := exists_trimmed fun c hc => (start c hc).2
  obtain rfl := h.trimmed
  refine ⟨?_, ?_, ?_, ?_⟩ <;> rw [String.toList_ofList]
  · exact h.named
  · intro c hc
    exact h.plain c (by rw [hrun]; exact List.mem_append_left after hc)
  · intro c hc
    refine start c ?_
    rw [hrun, List.head?_append_of_ne_nil _ h.named]
    exact hc
  · exact hlast

theorem part?_ne {cs : List Char} : ∀ part ∈ part? cs, part ≠ "" := by
  cases cs with
  | nil => simp [part?]
  | cons c cs =>
    rintro _ ⟨⟩ he
    simpa using congrArg String.toList he

theorem Equality.formed {name : String} {l : List (List Char)} {f : Filter} (naming : IsName name)
    (h : Equality name l f) : f.Formed IsFilled := by
  cases h with
  | item => exact .item naming _ _
  | present => exact .present naming
  | substring =>
    refine .substring naming ⟨part?_ne, fun part hpart => ?_, part?_ne⟩
    obtain ⟨cs, -, hcs⟩ := List.mem_filterMap.mp hpart
    exact part?_ne part hcs

theorem IsItem.formed {cs : List Char} {f : Filter} (h : IsItem cs f)
    (start : ∀ c ∈ cs.head?, c ∉ ['&', '|', '!'] ∧ Text.isBlank c = false) :
    f.Formed IsFilled := by
  have hname {run behind : List Char} {name : String} (naming : IsAttribute run name)
      (hcs : cs = run ++ behind) : IsName name := by
    refine naming.isName fun c hc => start c ?_
    have hrun : run ≠ [] := by
      rintro rfl
      cases hc
    rwa [hcs, List.head?_append_of_ne_nil _ hrun]
  cases h with
  | equality naming proper equality =>
    exact equality.formed (hname naming (List.append_assoc _ _ _))
  | comparison naming proper other =>
    exact .item (hname naming (List.append_assoc _ _ _)) _ _

mutual

theorem IsFilter.formed : ∀ {cs : List Char} {f : Filter}, IsFilter cs f → f.Formed IsFilled
  | _, _, .enclosed _ _ body => body.formed

theorem IsBody.formed : ∀ {cs rest : List Char} {f : Filter}, IsBody cs rest f →
    f.Formed IsFilled
  | _, _, _, .all list => .all list.ne_nil list.formed
  | _, _, _, .any list => .any list.ne_nil list.formed
  | _, _, _, .negate _ filter => .negate filter.formed
  | _, _, _, .item isItem start _ => isItem.formed start

theorem IsList.formed : ∀ {cs : List Char} {parts : List Filter}, IsList cs parts →
    ∀ p ∈ parts, p.Formed IsFilled
  | _, _, .last _ filter _ => List.forall_mem_singleton.mpr filter.formed
  | _, _, .next _ filter list => List.forall_mem_cons.mpr ⟨filter.formed, list.formed⟩

end

theorem IsText.formed {cs : List Char} {f : Filter} (h : IsText cs f) : f.Formed IsFilled := by
  obtain ⟨-, filter, -⟩ := h
  exact filter.formed

/-! ### What printing and reading makes of a formed filter -/

mutual

/-- A filter with presence in place of every pattern without parts. -/
def settled : Filter → Filter
  | all parts => all (settledAll parts)
  | any parts => any (settledAll parts)
  | negate part => negate part.settled
  | present name => present name
  | item name c value => item name c value
  | substring name p => if p = ⟨none, [], none⟩ then present name else substring name p

/-- Settles each filter of a list. -/
def settledAll : List Filter → List Filter
  | [] => []
  | p :: rest => p.settled :: settledAll rest

end

theorem settledAll_eq_iff {parts : List Filter}
    (h : ∀ p ∈ parts, (p.settled = p ↔ p.WellFormed)) :
    settledAll parts = parts ↔ ∀ p ∈ parts, p.WellFormed := by
  induction parts with
  | nil => simp [settledAll]
  | cons p rest ih =>
    rw [settledAll, List.cons.injEq, List.forall_mem_cons, h p List.mem_cons_self,
      ih fun q hq => h q (List.mem_cons_of_mem p hq)]

theorem isPattern_iff {p : Pattern} : IsPattern p ↔ IsFilled p ∧ p ≠ ⟨none, [], none⟩ := by
  obtain ⟨initial, middle, final⟩ := p
  refine ⟨fun h => ⟨h.toIsFilled, ?_⟩, fun ⟨filled, hne⟩ => ⟨filled, ?_⟩⟩
  · rintro ⟨⟩
    simpa using h.some
  · by_contra hnone
    simp only [not_or, not_not] at hnone
    obtain ⟨rfl, rfl, rfl⟩ := hnone
    exact hne rfl

theorem settled_eq_iff {f : Filter} (h : f.Formed IsFilled) : f.settled = f ↔ f.WellFormed := by
  induction h with
  | @all parts some formed ih =>
    rw [settled, Filter.all.injEq, settledAll_eq_iff ih]
    refine ⟨fun h => .all some h, ?_⟩
    rintro ⟨⟩
    assumption
  | @any parts some formed ih =>
    rw [settled, Filter.any.injEq, settledAll_eq_iff ih]
    refine ⟨fun h => .any some h, ?_⟩
    rintro ⟨⟩
    assumption
  | negate formed ih =>
    rw [settled, Filter.negate.injEq]
    refine ih.trans ⟨.negate, ?_⟩
    rintro ⟨⟩
    assumption
  | present naming => exact iff_of_true rfl (.present naming)
  | item naming c value => exact iff_of_true rfl (.item naming c value)
  | @substring name p naming fits =>
    have hwell : (substring name p).WellFormed ↔ IsPattern p := by
      refine ⟨?_, .substring naming⟩
      rintro ⟨⟩
      assumption
    rw [hwell, isPattern_iff, settled]
    split
    · next he => simp [he]
    · next he => simp [he, fits]

/-! ### Printed values -/

/-- A character of a value as it is printed. -/
def mark (c : Char) : Mark := if isSpecial c then .escaped c else .plain c

@[simp] theorem mark_char (c : Char) : (mark c).char = c := by
  unfold mark
  split <;> rfl

theorem mark_isProper (c : Char) : (mark c).IsProper := by
  unfold mark
  split
  · trivial
  · next h =>
    simp only [isSpecial, Bool.or_eq_true, beq_iff_eq, not_or] at h
    simp [Mark.IsProper, h]

theorem mark_ne_star (c : Char) : mark c ≠ .plain '*' := by
  unfold mark
  split
  · simp
  · next h =>
    rintro ⟨⟩
    exact h rfl

theorem written_append (l r : List Mark) : written (l ++ r) = written l ++ written r :=
  List.flatMap_append

theorem written_marks (cs : List Char) : written (cs.map mark) = escape cs := by
  induction cs with
  | nil => rfl
  | cons c cs ih =>
    rw [List.map_cons, written, List.flatMap_cons, ← written, ih, escape, mark]
    split <;> rfl

theorem literal_marks (cs : List Char) : literal (cs.map mark) = cs := by
  simp [literal, Function.comp_def]

theorem marks_proper (cs : List Char) : ∀ m ∈ cs.map mark, m.IsProper :=
  List.forall_mem_map.mpr fun c _ => mark_isProper c

/-- No star of a printed text cuts it. -/
theorem pieces_marks (cs : List Char) : pieces (cs.map mark) = [cs] := by
  induction cs with
  | nil => rfl
  | cons c cs ih =>
    rw [List.map_cons, pieces_cons, if_neg (mark_ne_star c), ih]
    simp

theorem pieces_marks_star (cs : List Char) (rest : List Mark) :
    pieces (cs.map mark ++ .plain '*' :: rest) = cs :: pieces rest := by
  induction cs with
  | nil => rw [List.map_nil, List.nil_append, pieces_cons, if_pos rfl]
  | cons c cs ih =>
    rw [List.map_cons, List.cons_append, pieces_cons, if_neg (mark_ne_star c), ih]
    simp

/-! ### Printed patterns -/

/-- The characters of a part that may be missing. -/
def partChars (part : Option String) : List Char := (part.map String.toList).getD []

theorem optionalPart_eq (part : Option String) : optionalPart part = escape (partChars part) := by
  cases part <;> rfl

theorem part?_partChars {part : Option String} (filled : ∀ s ∈ part, s ≠ "") :
    part? (partChars part) = part := by
  cases part with
  | none => rfl
  | some s =>
    show part? s.toList = some s
    cases hs : s.toList with
    | nil => exact absurd (String.toList_eq_nil_iff.mp hs) (filled s rfl)
    | cons c cs =>
      rw [part?, ← hs, String.ofList_toList]
      simp

theorem filterMap_part? {parts : List String} (filled : ∀ s ∈ parts, s ≠ "") :
    (parts.map String.toList).filterMap part? = parts := by
  induction parts with
  | nil => rfl
  | cons s parts ih =>
    have hfilled : ∀ t ∈ some s, t ≠ "" := by simpa using filled s List.mem_cons_self
    have hs : part? s.toList = some s := part?_partChars hfilled
    rw [List.map_cons, List.filterMap_cons_some hs,
      ih fun t ht => filled t (List.mem_cons_of_mem s ht)]

/-- A pattern as it is printed. -/
def patternMarks (p : Pattern) : List Mark :=
  (partChars p.initial).map mark ++ .plain '*' ::
    (p.middle.flatMap (fun part => part.toList.map mark ++ [.plain '*']) ++
      (partChars p.final).map mark)

theorem written_patternMarks (p : Pattern) : written (patternMarks p) = patternChars p := by
  have hmiddle (parts : List String) :
      written (parts.flatMap fun part => part.toList.map mark ++ [.plain '*']) =
        parts.flatMap fun part => escape part.toList ++ ['*'] := by
    induction parts with
    | nil => rfl
    | cons part parts ih =>
      rw [List.flatMap_cons, List.flatMap_cons, written_append, written_append, written_marks, ih]
      rfl
  have hcons (rest : List Mark) : written (.plain '*' :: rest) = '*' :: written rest := rfl
  rw [patternMarks, patternChars, written_append, hcons, written_append, hmiddle, written_marks,
    written_marks, optionalPart_eq, optionalPart_eq]
  simp

theorem patternMarks_proper (p : Pattern) : ∀ m ∈ patternMarks p, m.IsProper := by
  have hstar : Mark.IsProper (.plain '*') := by simp [Mark.IsProper]
  simp only [patternMarks, List.mem_append, List.mem_cons, List.mem_flatMap, List.not_mem_nil,
    or_false]
  rintro m (hm | rfl | ⟨part, -, hm | rfl⟩ | hm)
  · exact marks_proper _ m hm
  · exact hstar
  · exact marks_proper _ m hm
  · exact hstar
  · exact marks_proper _ m hm

theorem pieces_patternMarks (p : Pattern) : pieces (patternMarks p) =
    partChars p.initial :: (p.middle.map String.toList ++ [partChars p.final]) := by
  rw [patternMarks, pieces_marks_star]
  congr 1
  induction p.middle with
  | nil => exact pieces_marks _
  | cons part parts ih =>
    rw [List.flatMap_cons, List.append_assoc, List.append_assoc, List.singleton_append,
      pieces_marks_star, ih]
    rfl

/-- What a printed pattern stands for. -/
theorem equality_patternMarks {name : String} {p : Pattern} (filled : IsFilled p) :
    Equality name (pieces (patternMarks p)) (settled (.substring name p)) := by
  rw [pieces_patternMarks, settled]
  split
  · next he =>
    obtain rfl := he
    exact .present
  · next hne =>
    have hparts : p = ⟨part? (partChars p.initial),
        (p.middle.map String.toList).filterMap part?, part? (partChars p.final)⟩ := by
      rw [part?_partChars filled.initial, filterMap_part? filled.middle,
        part?_partChars filled.final]
    rw [congrArg (substring name) hparts]
    refine .substring fun hempty => hne ?_
    obtain ⟨hfirst, hrest⟩ := List.cons.inj hempty
    obtain ⟨hmiddle, hlast⟩ : p.middle.map String.toList = [] ∧ partChars p.final = [] := by
      simpa using List.append_eq_singleton_iff.mp hrest
    rw [hparts, hfirst, hmiddle, hlast]
    rfl

/-! ### Printed filters -/

theorem IsName.trimmed {name : String} (h : IsName name) :
    Text.trimmed name.toList = name.toList := by
  simpa using trimmed_surrounded .nil .nil (fun c hc => (h.start c hc).2) h.stop

theorem IsName.isAttribute {name : String} (h : IsName name) : IsAttribute name.toList name where
  plain := h.plain
  named := by rw [h.trimmed]; exact h.named
  trimmed := by rw [h.trimmed, String.ofList_toList]

/-- An item between its parentheses, with nothing around it. -/
theorem IsItem.enclosed {name : String} {behind : List Char} {f : Filter} (naming : IsName name)
    (h : IsItem (name.toList ++ behind) f) :
    IsFilter ('(' :: (name.toList ++ behind) ++ [')']) f := by
  have hbody : IsBody (name.toList ++ behind) ([] ++ [')']) f := by
    refine .item h (fun c hc => naming.start c ?_) (by simp)
    rwa [List.head?_append_of_ne_nil _ naming.named] at hc
  have := IsFilter.enclosed .nil .nil hbody
  simpa using this

theorem isList_charsAll {parts : List Filter} (some : parts ≠ [])
    (h : ∀ p ∈ parts, IsFilter p.chars p.settled) :
    IsList (charsAll parts) (settledAll parts) := by
  induction parts with
  | nil => exact absurd rfl some
  | cons p rest ih =>
    have hp := h p List.mem_cons_self
    cases rest with
    | nil => simpa [charsAll, settledAll] using IsList.last .nil hp .nil
    | cons q rest =>
      exact .next .nil hp (ih (by simp) fun r hr => h r (List.mem_cons_of_mem p hr))

/-- The written form of a formed filter stands for the filter with its patterns settled. -/
theorem Formed.isFilter_chars {f : Filter} (h : f.Formed IsFilled) :
    IsFilter f.chars f.settled := by
  induction h with
  | @all parts some formed ih =>
    have := IsFilter.enclosed .nil .nil (.all (isList_charsAll some ih))
    simpa [chars, settled] using this
  | @any parts some formed ih =>
    have := IsFilter.enclosed .nil .nil (.any (isList_charsAll some ih))
    simpa [chars, settled] using this
  | negate formed ih =>
    have := IsFilter.enclosed .nil .nil (.negate .nil ih)
    simpa [chars, settled] using this
  | @present name naming =>
    have hitem : IsItem (name.toList ++ sign .equal ++ written [.plain '*']) (.present name) :=
      .equality naming.isAttribute (by simp [Mark.IsProper]) .present
    rw [List.append_assoc] at hitem
    simpa [chars, settled, sign, written, Mark.written] using hitem.enclosed naming
  | @item name naming c value =>
    have hitem : IsItem (name.toList ++ sign c ++ written (value.toList.map mark))
        (.item name c value) := by
      by_cases hc : c = .equal
      · subst hc
        refine .equality naming.isAttribute (marks_proper _) ?_
        have hitem : Equality name [value.toList]
            (.item name .equal (String.ofList value.toList)) := .item
        rw [pieces_marks]
        simpa using hitem
      · simpa [literal_marks] using
          IsItem.comparison naming.isAttribute (marks_proper value.toList) hc
    rw [List.append_assoc] at hitem
    simpa [chars, settled, written_marks] using hitem.enclosed naming
  | @substring name p naming filled =>
    have hitem : IsItem (name.toList ++ sign .equal ++ written (patternMarks p))
        (settled (.substring name p)) :=
      .equality naming.isAttribute (patternMarks_proper p) (equality_patternMarks filled)
    rw [List.append_assoc] at hitem
    simpa [chars, sign, written_patternMarks] using hitem.enclosed naming

theorem parse_render_eq (f : Filter) : parse f.render = .ok f ↔ readText f.chars = .ok f := by
  unfold parse render
  rw [String.toList_ofList]
  cases h : readText f.chars <;> simp [h, Except.mapError]

theorem Formed.readText_chars {f : Filter} (h : f.Formed IsFilled) :
    readText f.chars = .ok f.settled := by
  refine readText_complete ?_
  have := IsText.surrounded .nil h.isFilter_chars .nil
  simpa using this

/-- A filter is read back from its written form just when it is well formed. -/
theorem parse_render_iff (f : Filter) : parse f.render = .ok f ↔ f.WellFormed := by
  rw [parse_render_eq]
  constructor
  · intro hread
    have formed : f.Formed IsFilled := (readText_sound hread).formed
    rw [formed.readText_chars] at hread
    exact (settled_eq_iff formed).mp (Except.ok.inj hread)
  · intro well
    have formed : f.Formed IsFilled := well.mono fun _ h => h.toIsFilled
    rw [formed.readText_chars, (settled_eq_iff formed).mpr well]

/-- A pattern without parts is written as the presence of its attribute. -/
example : parse (render (.negate (.substring "a" ⟨none, [], none⟩))) =
    .ok (.negate (.present "a")) := by rfl

end Filter
end Provisioning
