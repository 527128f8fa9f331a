import Mathlib.Data.List.TakeWhile
import Provisioning.Filter.Parser
import Provisioning.Filter.Printer

/-! # The grammar of filters

Which texts stand for which filters, said without a reader:

* a text is a filter with white space around it;
* a filter is a body in parentheses, with white space around it;
* a body is `&` or `|` with a list of filters, `!` with a filter, or an item;
* a list is one or more filters, with white space before, between and after them;
* an item is an attribute, a sign and a value.

A value is a run of characters that goes on up to a parenthesis, so that white space at its end
is part of it.  The main statement is that the reader accepts exactly the texts of this grammar,
each as the filter that it stands for.
-/
namespace Provisioning
namespace Filter

/-- White space, or nothing. -/
def IsSpace (cs : List Char) : Prop := ∀ c ∈ cs, Text.isBlank c = true

/-- A character of a value as it is written: plainly, or behind a backslash. -/
inductive Mark where
  | plain (c : Char)
  | escaped (c : Char)
  deriving DecidableEq

namespace Mark

/-- The character that is meant. -/
def char : Mark → Char
  | plain c => c
  | escaped c => c

/-- The characters that are written. -/
def written : Mark → List Char
  | plain c => [c]
  | escaped c => ['\\', c]

/-- Parentheses and the backslash are not written plainly. -/
def IsProper : Mark → Prop
  | plain c => c ∉ ['(', ')', '\\']
  | escaped _ => True

@[simp] theorem char_plain (c : Char) : (plain c).char = c := rfl

@[simp] theorem char_escaped (c : Char) : (escaped c).char = c := rfl

end Mark

/-- A value as it is written. -/
def written (marks : List Mark) : List Char := marks.flatMap Mark.written

/-- The text that a value means when its stars mean nothing. -/
def literal (marks : List Mark) : List Char := marks.map Mark.char

/-- The pieces of a value between the stars that are written plainly. -/
def pieces (marks : List Mark) : List (List Char) :=
  (marks.splitOnP fun m => m = .plain '*').map literal

/-- What an equality stands for, by the pieces of its value: one piece is a text to compare with,
two empty ones ask for presence, and all others are the parts of a pattern. -/
inductive Equality (name : String) : List (List Char) → Filter → Prop
  | item {piece : List Char} :
    Equality name [piece] (.item name .equal (String.ofList piece))
  | present : Equality name [[], []] (.present name)
  | substring {first last : List Char} {middle : List (List Char)}
    (some : first :: (middle ++ [last]) ≠ [[], []]) :
    Equality name (first :: (middle ++ [last]))
      (.substring name ⟨part? first, middle.filterMap part?, part? last⟩)

/-- The run of characters that a name is written as: white space around the name is dropped. -/
structure IsAttribute (run : List Char) (name : String) : Prop where
  plain : ∀ c ∈ run, c ∉ ['=', '~', '<', '>', '(', ')']
  named : Text.trimmed run ≠ []
  trimmed : name = String.ofList (Text.trimmed run)

/-- An item: an attribute, a sign and a value. -/
inductive IsItem : List Char → Filter → Prop
  | equality {run : List Char} {name : String} {marks : List Mark} {f : Filter}
    (naming : IsAttribute run name) (proper : ∀ m ∈ marks, m.IsProper)
    (equality : Equality name (pieces marks) f) :
    IsItem (run ++ sign .equal ++ written marks) f
  | comparison {run : List Char} {name : String} {c : Comparison} {marks : List Mark}
    (naming : IsAttribute run name) (proper : ∀ m ∈ marks, m.IsProper) (other : c ≠ .equal) :
    IsItem (run ++ sign c ++ written marks) (.item name c (String.ofList (literal marks)))

mutual

/-- A filter: a body in parentheses. -/
inductive IsFilter : List Char → Filter → Prop
  | enclosed {before cs after : List Char} {f : Filter} (before_blank : IsSpace before)
    (after_blank : IsSpace after) (body : IsBody cs (after ++ [')']) f) :
    IsFilter ('(' :: (before ++ cs ++ after) ++ [')']) f

/-- A body, and what stands behind it. -/
inductive IsBody : List Char → List Char → Filter → Prop
  | all {cs rest : List Char} {parts : List Filter} (list : IsList cs parts) :
    IsBody ('&' :: cs) rest (.all parts)
  | any {cs rest : List Char} {parts : List Filter} (list : IsList cs parts) :
    IsBody ('|' :: cs) rest (.any parts)
  | negate {before cs rest : List Char} {part : Filter} (before_blank : IsSpace before)
    (filter : IsFilter cs part) : IsBody ('!' :: (before ++ cs)) rest (.negate part)
  /-- The value of an item goes on up to a parenthesis. -/
  | item {cs rest : List Char} {f : Filter} (item : IsItem cs f)
    (start : ∀ c ∈ cs.head?, c ∉ ['&', '|', '!'] ∧ Text.isBlank c = false)
    (stop : ∀ c ∈ rest.head?, c ∈ ['(', ')']) : IsBody cs rest f

/-- One filter or more. -/
inductive IsList : List Char → List Filter → Prop
  | last {before cs after : List Char} {f : Filter} (before_blank : IsSpace before)
    (filter : IsFilter cs f) (after_blank : IsSpace after) : IsList (before ++ cs ++ after) [f]
  | next {before cs rest : List Char} {f : Filter} {parts : List Filter}
    (before_blank : IsSpace before) (filter : IsFilter cs f) (list : IsList rest parts) :
    IsList (before ++ cs ++ rest) (f :: parts)

end

/-- A text that stands for a filter. -/
inductive IsText : List Char → Filter → Prop
  | surrounded {before cs after : List Char} {f : Filter} (before_blank : IsSpace before)
    (filter : IsFilter cs f) (after_blank : IsSpace after) : IsText (before ++ cs ++ after) f

/-! ### White space -/

theorem trimStart_space {before : List Char} (h : IsSpace before) (cs : List Char) :
    Text.trimStart (before ++ cs) = Text.trimStart cs := by
  induction before with
  | nil => rfl
  | cons c rest ih =>
    rw [List.cons_append, Text.trimStart_cons_of_blank (h c List.mem_cons_self)]
    exact ih fun d hd => h d (List.mem_cons_of_mem c hd)

theorem IsSpace.nil : IsSpace [] := by simp [IsSpace]

theorem IsSpace.trimStart_eq {cs : List Char} (h : IsSpace cs) : Text.trimStart cs = [] := by
  simpa [Text.trimStart] using trimStart_space h []

/-- Nothing is dropped from a text that starts with no white space. -/
theorem trimStart_eq_self {cs : List Char} (start : ∀ c ∈ cs.head?, Text.isBlank c = false) :
    Text.trimStart cs = cs := by
  cases cs with
  | nil => rfl
  | cons c cs => exact Text.trimStart_cons_of_not_blank (start c rfl)

/-- A text is white space and what is left when that is dropped, which starts with none. -/
theorem exists_space (cs : List Char) :
    ∃ before, IsSpace before ∧ cs = before ++ Text.trimStart cs ∧
      ∀ c ∈ (Text.trimStart cs).head?, Text.isBlank c = false := by
  refine ⟨cs.takeWhile Text.isBlank, fun c hc => ?_, List.takeWhile_append_dropWhile.symm,
    fun c hc => ?_⟩
  · exact List.mem_takeWhile_imp hc
  · have := List.head?_dropWhile_not Text.isBlank cs
    unfold Text.trimStart at hc
    rw [Option.mem_def] at hc
    rw [hc] at this
    simpa using this

theorem isSpace_of_trimStart {cs : List Char} (h : Text.trimStart cs = []) : IsSpace cs := by
  obtain ⟨before, hb, he, -⟩ := exists_space cs
  rw [h, List.append_nil] at he
  rwa [he]

/-! ### Values -/

theorem pieces_cons (m : Mark) (marks : List Mark) :
    pieces (m :: marks) = if m = .plain '*' then [] :: pieces marks
      else (pieces marks).modifyHead (List.cons m.char) := by
  unfold pieces
  rw [List.splitOnP_cons_eq_if_modifyHead]
  by_cases h : m = .plain '*'
  · simp [h, literal]
  · cases hs : marks.splitOnP fun m => m = .plain '*' with
    | nil => exact absurd hs (List.splitOnP_ne_nil _ _)
    | cons piece rest => simp [h, literal]

/-- The pieces that the reader is to find. -/
def cut (stars : Bool) (marks : List Mark) : List (List Char) :=
  if stars then pieces marks else [literal marks]

theorem cut_nil (stars : Bool) : cut stars [] = [[]] := by
  cases stars <;> rfl

theorem cut_cons (stars : Bool) (m : Mark) (marks : List Mark) :
    cut stars (m :: marks) = if m = .plain '*' ∧ stars = true then [] :: cut stars marks
      else (cut stars marks).modifyHead (List.cons m.char) := by
  cases stars with
  | true => simp [cut, pieces_cons]
  | false => simp [cut, literal]

/-- What reads something reads its parts. -/
theorem exists_of_bind {α β : Type} {x : Except Fault α} {f : α → Except Fault β} {b : β}
    (h : x >>= f = .ok b) : ∃ a, x = .ok a ∧ f a = .ok b := by
  cases x with
  | error e => cases h
  | ok a => exact ⟨a, rfl, h⟩

/-- Reading one character in front of a value that is read. -/
theorem cut_of_pieces {stars : Bool} {marks : List Mark} {p : Pieces} (m : Mark)
    (h : p.first :: p.more = cut stars marks) :
    (if m = .plain '*' ∧ stars = true then p.star else p.cons m.char).first ::
        (if m = .plain '*' ∧ stars = true then p.star else p.cons m.char).more =
      cut stars (m :: marks) := by
  rw [cut_cons, ← h]
  split <;> rfl

theorem readValue_sound {stars : Bool} {cs rest : List Char} {p : Pieces}
    (h : readValue stars cs = .ok (p, rest)) :
    ∃ marks, (∀ m ∈ marks, m.IsProper) ∧ cs = written marks ++ rest ∧ rest.head? = some ')' ∧
      p.first :: p.more = cut stars marks := by
  fun_induction readValue stars cs generalizing p rest with
  | case1 => cases h
  | case2 => cases h
  | case3 c cs ih =>
    obtain ⟨⟨p', rest'⟩, hread, he⟩ := exists_of_bind h
    cases he
    obtain ⟨marks, hproper, rfl, hrest, hp⟩ := ih hread
    refine ⟨.escaped c :: marks, ?_, rfl, hrest, ?_⟩
    · simpa using ⟨trivial, hproper⟩
    · simpa using cut_of_pieces (.escaped c) hp
  | case4 cs =>
    cases h
    exact ⟨[], by simp, rfl, rfl, (cut_nil stars).symm⟩
  | case5 => cases h
  | case6 c cs hback hback' hclose hopen hstar ih =>
    obtain ⟨⟨p', rest'⟩, hread, he⟩ := exists_of_bind h
    cases he
    obtain ⟨marks, hproper, rfl, hrest, hp⟩ := ih hread
    simp only [Bool.and_eq_true, decide_eq_true_eq] at hstar
    obtain ⟨rfl, rfl⟩ := hstar
    refine ⟨.plain '*' :: marks, ?_, rfl, hrest, ?_⟩
    · simpa [Mark.IsProper] using hproper
    · simpa using cut_of_pieces (.plain '*') hp
  | case7 c cs hback hback' hclose hopen hstar ih =>
    have hplain : c ≠ '\\' := by
      rintro rfl
      cases cs with
      | nil => exact hback rfl rfl
      | cons d cs => exact hback' d cs rfl rfl
    obtain ⟨⟨p', rest'⟩, hread, he⟩ := exists_of_bind h
    cases he
    obtain ⟨marks, hproper, rfl, hrest, hp⟩ := ih hread
    simp only [Bool.and_eq_true, decide_eq_true_eq] at hstar
    refine ⟨.plain c :: marks, ?_, rfl, hrest, ?_⟩
    · simpa [Mark.IsProper, hclose, hopen, hplain] using hproper
    · simpa [hstar] using cut_of_pieces (.plain c) hp

theorem readValue_complete (stars : Bool) {marks : List Mark} {rest : List Char}
    (hproper : ∀ m ∈ marks, m.IsProper) (hrest : rest.head? = some ')') :
    ∃ p, readValue stars (written marks ++ rest) = .ok (p, rest) ∧
      p.first :: p.more = cut stars marks := by
  induction marks with
  | nil =>
    obtain ⟨c, rest⟩ := rest
    · cases hrest
    · cases hrest
      exact ⟨⟨[], []⟩, by simp [written, readValue], (cut_nil stars).symm⟩
  | cons m marks ih =>
    obtain ⟨p, hread, hp⟩ := ih fun m hm => hproper m (List.mem_cons_of_mem _ hm)
    refine ⟨_, ?_, cut_of_pieces m hp⟩
    cases m with
    | escaped c =>
      show readValue stars ('\\' :: c :: (written marks ++ rest)) = _
      simp [readValue, hread, bind, Except.bind]
    | plain c =>
      have hc : c ∉ ['(', ')', '\\'] := hproper _ List.mem_cons_self
      simp only [List.mem_cons, List.not_mem_nil, or_false, not_or] at hc
      show readValue stars (c :: (written marks ++ rest)) = _
      by_cases hstar : c = '*' ∧ stars = true
      · obtain ⟨rfl, rfl⟩ := hstar
        simp [readValue, hread, bind, Except.bind]
      · simp [readValue, hread, bind, Except.bind, hc, hstar]

/-! ### Items -/

theorem ofPieces_substring (name : String) {first last : List Char} {middle : List (List Char)}
    (h : first :: (middle ++ [last]) ≠ [[], []]) :
    ofPieces name ⟨first, middle ++ [last]⟩ =
      .substring name ⟨part? first, middle.filterMap part?, part? last⟩ := by
  generalize hm : middle ++ [last] = more at h
  unfold ofPieces
  dsimp only
  split
  · simp at hm
  · exact absurd rfl h
  · next piece more _ =>
    have hlast : (piece :: more).getLast (by simp) = last := by simp [← hm]
    have hmiddle : (piece :: more).dropLast = middle := by simp [← hm]
    rw [hlast, hmiddle]

/-- What the reader makes of the pieces is what they stand for. -/
theorem equality_iff {name : String} {p : Pieces} {f : Filter} :
    Equality name (p.first :: p.more) f ↔ f = ofPieces name p := by
  constructor
  · generalize hl : p.first :: p.more = l
    rintro (_ | _ | some)
    · obtain ⟨first, more⟩ := p
      cases hl
      rfl
    · obtain ⟨first, more⟩ := p
      cases hl
      rfl
    · obtain ⟨first, more⟩ := p
      cases hl
      exact (ofPieces_substring name some).symm
  · rintro rfl
    obtain ⟨first, more⟩ := p
    rcases List.eq_nil_or_concat more with rfl | ⟨middle, last, rfl⟩
    · exact .item
    · rw [List.concat_eq_append]
      by_cases h : first :: (middle ++ [last]) = [[], []]
      · obtain ⟨rfl, hm⟩ := List.cons.inj h
        rw [hm]
        exact .present
      · rw [ofPieces_substring name h]
        exact .substring h

theorem isAttributeChar_iff {c : Char} :
    isAttributeChar c = true ↔ c ∉ ['=', '~', '<', '>', '(', ')'] := by
  simp [isAttributeChar, and_assoc]

theorem readAttribute_sound {cs rest : List Char} {name : String}
    (h : readAttribute cs = .ok (name, rest)) :
    ∃ run, IsAttribute run name ∧ cs = run ++ rest := by
  unfold readAttribute at h
  split at h
  · cases h
  · next hnamed =>
    cases h
    refine ⟨_, ⟨fun c hc => ?_, hnamed, rfl⟩, List.takeWhile_append_dropWhile.symm⟩
    exact isAttributeChar_iff.mp (List.mem_takeWhile_imp hc)

theorem readAttribute_complete {run rest : List Char} {name : String}
    (h : IsAttribute run name) (hrest : ∀ c ∈ rest.head?, isAttributeChar c = false) :
    readAttribute (run ++ rest) = .ok (name, rest) := by
  have hrun : ∀ c ∈ run, isAttributeChar c = true :=
    fun c hc => isAttributeChar_iff.mpr (h.plain c hc)
  have htake : rest.takeWhile isAttributeChar = [] := by
    cases rest with
    | nil => rfl
    | cons c rest => simp [hrest c rfl]
  have hdrop : rest.dropWhile isAttributeChar = rest := by
    cases rest with
    | nil => rfl
    | cons c rest => simp [hrest c rfl]
  unfold readAttribute
  rw [List.takeWhile_append_of_pos hrun, List.dropWhile_append_of_pos hrun, htake, hdrop,
    List.append_nil]
  split
  · next hn => exact absurd hn h.named
  · rw [h.trimmed]

theorem readComparison_sign (c : Comparison) (rest : List Char) :
    readComparison (sign c ++ rest) = .ok (c, rest) := by
  cases c <;> rfl

theorem readComparison_sound {cs rest : List Char} {c : Comparison}
    (h : readComparison cs = .ok (c, rest)) : cs = sign c ++ rest := by
  unfold readComparison at h
  split at h <;> cases h <;> rfl

theorem readItem_sound {cs rest : List Char} {f : Filter} (h : readItem cs = .ok (f, rest)) :
    ∃ item, IsItem item f ∧ cs = item ++ rest ∧ rest.head? = some ')' := by
  obtain ⟨⟨name, cs₁⟩, hname, hafter⟩ := exists_of_bind h
  obtain ⟨⟨c, cs₂⟩, hsign, hbehind⟩ := exists_of_bind hafter
  obtain ⟨⟨p, cs₃⟩, hvalue, hmade⟩ := exists_of_bind hbehind
  clear h hafter hbehind
  obtain ⟨run, hnaming, rfl⟩ := readAttribute_sound hname
  obtain rfl := readComparison_sound hsign
  obtain ⟨marks, hproper, rfl, hrest, hp⟩ := readValue_sound hvalue
  by_cases hc : c = .equal
  · subst hc
    cases hmade
    have hpieces : p.first :: p.more = pieces marks := hp
    exact ⟨_, .equality hnaming hproper (hpieces ▸ equality_iff.mpr rfl), by simp, hrest⟩
  · have hpiece : p.first :: p.more = [literal marks] := by simpa [cut, hc] using hp
    obtain ⟨hfirst, -⟩ := List.cons.inj hpiece
    have hf : f = .item name c (String.ofList (literal marks)) ∧ rest = cs₃ := by
      cases c with
      | equal => exact absurd rfl hc
      | approx | atLeast | atMost =>
        cases hmade
        exact ⟨by rw [hfirst], rfl⟩
    obtain ⟨rfl, rfl⟩ := hf
    exact ⟨_, .comparison hnaming hproper hc, by simp, hrest⟩

theorem sign_head (c : Comparison) (cs : List Char) :
    ∀ d ∈ (sign c ++ cs).head?, isAttributeChar d = false := by
  cases c <;> simp [sign, isAttributeChar]

theorem readItem_complete {item rest : List Char} {f : Filter} (h : IsItem item f)
    (hrest : rest.head? = some ')') : readItem (item ++ rest) = .ok (f, rest) := by
  cases h with
  | @equality run name marks _ naming proper equality =>
    obtain ⟨p, hvalue, hp⟩ := readValue_complete true proper hrest
    have hpieces : p.first :: p.more = pieces marks := hp
    obtain rfl := equality_iff.mp (hpieces ▸ equality)
    unfold readItem
    rw [List.append_assoc, List.append_assoc,
      readAttribute_complete naming (sign_head _ _)]
    simp [bind, Except.bind, readComparison_sign, hvalue]
  | @comparison run name c marks naming proper other =>
    obtain ⟨p, hvalue, hp⟩ := readValue_complete false proper hrest
    obtain ⟨hfirst, -⟩ : p.first = literal marks ∧ p.more = [] := List.cons.inj hp
    unfold readItem
    rw [List.append_assoc, List.append_assoc, readAttribute_complete naming (sign_head _ _)]
    cases c with
    | equal => exact absurd rfl other
    | approx | atLeast | atMost =>
      simp [bind, Except.bind, readComparison_sign, hvalue, hfirst]

/-! ### Filters -/

theorem expect_sound {wanted : Char} {cs rest : List Char} (h : expect wanted cs = .ok rest) :
    cs = wanted :: rest := by
  unfold expect at h
  split at h
  · cases h
  · split at h
    · next c cs heq =>
      cases h
      rw [heq]
    · cases h

theorem expect_complete (wanted : Char) (rest : List Char) :
    expect wanted (wanted :: rest) = .ok rest := by
  simp [expect]

/-- What is known of a text that a reader of filters takes. -/
def FiltersSound (depth : Nat) : Prop := ∀ ⦃cs rest f⦄, readFilter depth cs = .ok (f, rest) →
  ∃ taken, IsFilter taken f ∧ cs = taken ++ rest

/-- What is known of a text that a reader of lists takes. -/
def ListsSound (depth : Nat) : Prop := ∀ ⦃cs rest parts⦄, readList depth cs = .ok (parts, rest) →
  ∃ taken, (parts = [] ∧ IsSpace taken ∨ IsList taken parts) ∧ cs = taken ++ rest

theorem ListsSound.cons {depth : Nat} (lists : ListsSound depth) {cs rest : List Char}
    {parts : List Filter} (h : readList depth cs = .ok (parts, rest)) (some : parts ≠ []) :
    ∃ taken, IsList taken parts ∧ cs = taken ++ rest := by
  obtain ⟨taken, ⟨rfl, -⟩ | hlist, rfl⟩ := lists h
  · exact absurd rfl some
  · exact ⟨taken, hlist, rfl⟩

/-- What stands behind a body that is read: white space, and the closing parenthesis. -/
theorem close_sound {behind rest : List Char} {f g : Filter}
    (h : (do let rest ← expect ')' (Text.trimStart behind); Except.ok (g, rest)) =
      .ok (f, rest)) :
    f = g ∧ ∃ after, IsSpace after ∧ behind = after ++ ')' :: rest := by
  obtain ⟨rest', hclose, hmade⟩ := exists_of_bind h
  cases hmade
  obtain ⟨after, hafter, hbehind, -⟩ := exists_space behind
  exact ⟨rfl, after, hafter, expect_sound hclose ▸ hbehind⟩

/-- A body that is read between its parentheses is a filter. -/
theorem enclosed_sound {cs body behind rest : List Char} {f g : Filter}
    (htrim : Text.trimStart cs = body ++ behind)
    (h : (do let rest ← expect ')' (Text.trimStart behind); Except.ok (g, rest)) =
      .ok (f, rest))
    (hbody : ∀ after, behind = after ++ ')' :: rest → IsBody body (after ++ [')']) g) :
    ∃ taken, IsFilter taken f ∧ '(' :: cs = taken ++ rest := by
  obtain ⟨rfl, after, hafter, rfl⟩ := close_sound h
  obtain ⟨before, hbefore, hcs, -⟩ := exists_space cs
  refine ⟨_, .enclosed hbefore hafter (hbody after rfl), ?_⟩
  rw [hcs, htrim]
  simp

theorem readFilter_sound {depth : Nat} (filters : FiltersSound depth) (lists : ListsSound depth) :
    FiltersSound (depth + 1) := by
  intro cs rest f h
  unfold readFilter at h
  obtain ⟨cs₁, hopen, hbody⟩ := exists_of_bind h
  clear h
  obtain rfl := expect_sound hopen
  dsimp only at hbody
  split at hbody
  · cases hbody
  · next cs heq =>
    obtain ⟨⟨parts, behind⟩, hread, hclose⟩ := exists_of_bind hbody
    dsimp only at hclose
    split at hclose
    · cases hclose
    · next hsome =>
      obtain ⟨taken, hlist, rfl⟩ := lists.cons hread (by simpa using hsome)
      exact enclosed_sound heq hclose fun after _ => .all hlist
  · next cs heq =>
    obtain ⟨⟨parts, behind⟩, hread, hclose⟩ := exists_of_bind hbody
    dsimp only at hclose
    split at hclose
    · cases hclose
    · next hsome =>
      obtain ⟨taken, hlist, rfl⟩ := lists.cons hread (by simpa using hsome)
      exact enclosed_sound heq hclose fun after _ => .any hlist
  · next cs heq =>
    obtain ⟨⟨part, behind⟩, hread, hclose⟩ := exists_of_bind hbody
    obtain ⟨taken, hfilter, htaken⟩ := filters hread
    obtain ⟨space, hspace, hcs, -⟩ := exists_space cs
    have htrim : Text.trimStart cs₁ = '!' :: (space ++ taken) ++ behind := by
      rw [heq, hcs, htaken]
      simp
    exact enclosed_sound htrim hclose fun after _ => .negate hspace hfilter
  · next hall hany hnot =>
    obtain ⟨⟨g, behind⟩, hread, hclose⟩ := exists_of_bind hbody
    obtain ⟨item, hitem, htrim, hstop⟩ := readItem_sound hread
    obtain ⟨before, hbefore, hcs, hhead⟩ := exists_space cs₁
    refine enclosed_sound htrim hclose fun after hafter => .item hitem ?_ ?_
    · cases item with
      | nil => simp
      | cons c item =>
        rintro _ ⟨⟩
        refine ⟨?_, hhead c (by rw [htrim]; rfl)⟩
        rintro hc
        simp only [List.mem_cons, List.not_mem_nil, or_false] at hc
        obtain rfl | rfl | rfl := hc
        · exact hall _ htrim
        · exact hany _ htrim
        · exact hnot _ htrim
    · subst hafter
      cases after with
      | nil => simp
      | cons c after =>
        cases hstop
        simp

theorem readList_sound {depth : Nat} (filters : FiltersSound depth) (lists : ListsSound depth) :
    ListsSound (depth + 1) := by
  intro cs rest parts h
  unfold readList at h
  obtain ⟨before, hbefore, hcs, -⟩ := exists_space cs
  split at h
  · next cs' heq =>
    obtain ⟨⟨f, behind⟩, hread, hmore⟩ := exists_of_bind h
    obtain ⟨⟨fs, rest'⟩, hreads, hmade⟩ := exists_of_bind hmore
    cases hmade
    obtain ⟨taken, hfilter, htaken⟩ := filters hread
    rw [hcs, heq, htaken]
    obtain ⟨more, ⟨rfl, hblank⟩ | hlist, rfl⟩ := lists hreads
    · exact ⟨_, .inr (.last hbefore hfilter hblank), by simp⟩
    · exact ⟨_, .inr (.next hbefore hfilter hlist), by simp⟩
  · cases h
    exact ⟨before, .inl ⟨rfl, hbefore⟩, hcs⟩

theorem read_sound (depth : Nat) : FiltersSound depth ∧ ListsSound depth := by
  induction depth with
  | zero =>
    refine ⟨fun cs rest f h => ?_, fun cs rest parts h => ?_⟩
    · simp [readFilter] at h
    · simp only [readList] at h
      cases h
      exact ⟨[], .inl ⟨rfl, .nil⟩, rfl⟩
  | succ depth ih => exact ⟨readFilter_sound ih.1 ih.2, readList_sound ih.1 ih.2⟩

/-- What is known of a reader of filters in front of a filter. -/
def FiltersComplete (depth : Nat) : Prop := ∀ ⦃cs f⦄, IsFilter cs f → cs.length ≤ depth →
  ∀ rest, readFilter depth (cs ++ rest) = .ok (f, rest)

/-- What is known of a reader of lists in front of a list. -/
def ListsComplete (depth : Nat) : Prop := ∀ ⦃cs parts⦄, IsList cs parts → cs.length < depth →
  ∀ rest, (Text.trimStart rest).head? ≠ some '(' →
    readList depth (cs ++ rest) = .ok (parts, Text.trimStart rest)

theorem IsFilter.exists_cons {cs : List Char} {f : Filter} (h : IsFilter cs f) :
    ∃ inner, cs = '(' :: inner := by
  cases h
  exact ⟨_, rfl⟩

theorem IsItem.exists_cons {cs : List Char} {f : Filter} (h : IsItem cs f) :
    ∃ c inner, cs = c :: inner := by
  refine List.exists_cons_of_ne_nil ?_
  cases h with
  | equality => simp [sign]
  | @comparison _ _ c => cases c <;> simp [sign]

theorem IsList.ne_nil {cs : List Char} {parts : List Filter} (h : IsList cs parts) :
    parts ≠ [] := by
  cases h <;> simp

theorem trimStart_close {after : List Char} (h : IsSpace after) (rest : List Char) :
    Text.trimStart (after ++ ')' :: rest) = ')' :: rest := by
  rw [trimStart_space h]
  rfl

theorem readFilter_complete {depth : Nat} (filters : FiltersComplete depth)
    (lists : ListsComplete depth) : FiltersComplete (depth + 1) := by
  intro cs f h hlen rest
  obtain @⟨before, body, after, _, hbefore, hafter, hbody⟩ := h
  have hlist {cs : List Char} {parts : List Filter} (h : IsList cs parts)
      (hshort : cs.length < depth) :
      readList depth (cs ++ (after ++ ')' :: rest)) = .ok (parts, ')' :: rest) := by
    rw [lists h hshort, trimStart_close hafter]
    simp [trimStart_close hafter]
  have htext : '(' :: (before ++ body ++ after) ++ [')'] ++ rest =
      '(' :: (before ++ (body ++ (after ++ ')' :: rest))) := by simp
  simp only [List.length_append, List.length_cons, List.length_nil] at hlen
  rw [htext]
  unfold readFilter
  rw [expect_complete]
  simp only [bind, Except.bind, trimStart_space hbefore]
  have hclose (f : Filter) : (match expect ')' (Text.trimStart (')' :: rest)) with
      | .error e => .error e
      | .ok rest => .ok (f, rest)) = (Except.ok (f, rest) : Except Fault _) := rfl
  cases hbody with
  | @all cs _ parts list =>
    have hshort : cs.length < depth := by simp only [List.length_cons] at hlen; omega
    rw [List.cons_append, Text.trimStart_cons_of_not_blank (by decide)]
    simp only [hlist list hshort, List.isEmpty_iff, list.ne_nil]
    exact hclose _
  | @any cs _ parts list =>
    have hshort : cs.length < depth := by simp only [List.length_cons] at hlen; omega
    rw [List.cons_append, Text.trimStart_cons_of_not_blank (by decide)]
    simp only [hlist list hshort, List.isEmpty_iff, list.ne_nil]
    exact hclose _
  | @negate space cs _ part space_blank filter =>
    have hshort : cs.length ≤ depth := by
      simp only [List.length_append, List.length_cons] at hlen
      omega
    have hread := filters filter hshort (after ++ ')' :: rest)
    obtain ⟨inner, rfl⟩ := filter.exists_cons
    rw [List.cons_append, Text.trimStart_cons_of_not_blank (by decide)]
    simp only [List.append_assoc, trimStart_space space_blank]
    rw [List.cons_append, Text.trimStart_cons_of_not_blank (by decide), ← List.cons_append,
      hread]
    dsimp only
    rw [trimStart_close hafter]
    rfl
  | item item start stop =>
    obtain rfl : after = [] := by
      cases after with
      | nil => rfl
      | cons c after =>
        obtain rfl | rfl : c = '(' ∨ c = ')' := by simpa using stop c rfl
        · exact absurd (hafter '(' (by simp)) (by decide)
        · exact absurd (hafter ')' (by simp)) (by decide)
    have hread : readItem (_ ++ ')' :: rest) = .ok (_, ')' :: rest) := readItem_complete item rfl
    obtain ⟨c, body, rfl⟩ := item.exists_cons
    obtain ⟨hplain, hblank⟩ := start c rfl
    simp only [List.mem_cons, List.not_mem_nil, or_false, not_or] at hplain
    rw [List.nil_append, List.cons_append, Text.trimStart_cons_of_not_blank hblank,
      ← List.cons_append]
    split
    · next heq => cases heq
    · next heq => exact absurd (List.cons.inj heq).1 hplain.1
    · next heq => exact absurd (List.cons.inj heq).1 hplain.2.1
    · next heq => exact absurd (List.cons.inj heq).1 hplain.2.2
    · rw [hread]
      exact hclose f

theorem readList_complete {depth : Nat} (filters : FiltersComplete depth)
    (lists : ListsComplete depth) : ListsComplete (depth + 1) := by
  intro cs parts h hlen rest hrest
  unfold readList
  cases h with
  | @last before cs after f before_blank filter after_blank =>
    simp only [List.length_append] at hlen
    have hread := filters filter (by omega) (after ++ rest)
    obtain ⟨inner, rfl⟩ := filter.exists_cons
    obtain ⟨depth, rfl⟩ : ∃ d, depth = d + 1 :=
      Nat.exists_eq_succ_of_ne_zero (by simp only [List.length_cons] at hlen; omega)
    have hstop : readList (depth + 1) (after ++ rest) = .ok ([], Text.trimStart rest) := by
      unfold readList
      rw [trimStart_space after_blank]
      split
      · next heq => simp [heq] at hrest
      · rfl
    simp only [List.append_assoc, trimStart_space before_blank]
    rw [List.cons_append, Text.trimStart_cons_of_not_blank (by decide), ← List.cons_append]
    simp only [List.cons_append] at hread ⊢
    simp only [hread, hstop, bind, Except.bind]
  | @next before cs more f fs before_blank filter list =>
    simp only [List.length_append] at hlen
    have hread := filters filter (by omega) (more ++ rest)
    obtain ⟨inner, rfl⟩ := filter.exists_cons
    have hreads := lists list (by simp only [List.length_cons] at hlen; omega) rest hrest
    simp only [List.append_assoc, trimStart_space before_blank]
    rw [List.cons_append, Text.trimStart_cons_of_not_blank (by decide)]
    simp only [List.cons_append] at hread ⊢
    simp only [hread, hreads, bind, Except.bind]

theorem read_complete (depth : Nat) : FiltersComplete depth ∧ ListsComplete depth := by
  induction depth with
  | zero =>
    refine ⟨fun cs f h hlen => ?_, fun cs parts h hlen => absurd hlen (Nat.not_lt_zero _)⟩
    obtain ⟨inner, rfl⟩ := h.exists_cons
    cases hlen
  | succ depth ih => exact ⟨readFilter_complete ih.1 ih.2, readList_complete ih.1 ih.2⟩

/-! ### Texts -/

theorem readText_sound {cs : List Char} {f : Filter} (h : readText cs = .ok f) :
    IsText cs f := by
  obtain ⟨⟨g, rest⟩, hread, hmade⟩ := exists_of_bind h
  dsimp only at hmade
  split at hmade
  · next hrest =>
    cases hmade
    obtain ⟨taken, hfilter, htaken⟩ := (read_sound _).1 hread
    obtain ⟨before, hbefore, hcs, -⟩ := exists_space cs
    rw [hcs, htaken, ← List.append_assoc]
    exact .surrounded hbefore hfilter (isSpace_of_trimStart hrest)
  · cases hmade

theorem readText_complete {cs : List Char} {f : Filter} (h : IsText cs f) :
    readText cs = .ok f := by
  obtain @⟨before, cs, after, _, hbefore, hfilter, hafter⟩ := h
  have hread := (read_complete ((before ++ cs ++ after).length + 1)).1 hfilter
    (by simp only [List.length_append]; omega) after
  have htrim : Text.trimStart (before ++ cs ++ after) = cs ++ after := by
    obtain ⟨inner, rfl⟩ := hfilter.exists_cons
    rw [List.append_assoc, trimStart_space hbefore]
    exact Text.trimStart_cons_of_not_blank (by decide)
  simp only [readText, htrim, hread, hafter.trimStart_eq, bind, Except.bind]

/-- A text stands for one filter at most: a value goes on as far as it can, and so there is only one
way to take a text apart. -/
theorem IsText.unique {cs : List Char} {f g : Filter} (hf : IsText cs f) (hg : IsText cs g) :
    f = g := by
  have hread := readText_complete hf
  rw [readText_complete hg] at hread
  exact (Except.ok.inj hread).symm

/-- The reader accepts a text just when the text stands for a filter, and it gives back that
filter. -/
theorem parse_eq_ok_iff (s : String) (f : Filter) : parse s = .ok f ↔ IsText s.toList f := by
  have hmap : parse s = .ok f ↔ readText s.toList = .ok f := by
    unfold parse
    cases h : readText s.toList <;> simp [h, Except.mapError]
  rw [hmap]
  exact ⟨readText_sound, readText_complete⟩

/-- White space at the end of a value belongs to it; around a name it does not. -/
example : parse " ( &(a = x )( ! (b=*)) ) " =
    .ok (.all [.item "a" .equal " x ", .negate (.present "b")]) := by rfl

end Filter
end Provisioning
