import Provisioning.Filter.Match
import Provisioning.Proofs.Printing

/-! # What patterns match

A pattern stands for all texts in which its parts follow one another with anything in between
(`Pattern.filled`).  The search takes every part where it occurs first, and that loses no text: what
stands behind a later occurrence is the end of what stands behind the first one, so that the next
gap makes up for the difference.

A pattern without parts asks for some text.  It is written like the presence of an attribute, which
asks for any value, and comes back as that when it is read.  In nothing else does a filter that was
read differ from its written form.
-/
namespace Provisioning

/-- The text that a pattern becomes when its gaps are filled: one gap stands behind the initial
part, and one behind each part in the middle. -/
def Pattern.filled (p : Pattern) (gap : String) (gaps : List String) : String :=
  p.initial.getD "" ++ gap ++ String.join (List.zipWith (· ++ ·) p.middle gaps) ++ p.final.getD ""

namespace Filter

variable {final : List Char}

/-! ### Parts in order -/

/-- A text in which parts follow one another and the final one stands at the end, with a gap in
front of each of them. -/
inductive Strung (final : List Char) : List String → List Char → Prop
  | last (gap : List Char) : Strung final [] (gap ++ final)
  | next (gap : List Char) {part : String} {parts : List String} {rest : List Char}
    (strung : Strung final parts rest) : Strung final (part :: parts) (gap ++ (part.toList ++ rest))

/-- The first gap may be wider. -/
theorem Strung.of_suffix {parts : List String} {cs cs' : List Char} (h : Strung final parts cs)
    (hs : cs <:+ cs') : Strung final parts cs' := by
  obtain ⟨more, rfl⟩ := hs
  cases h with
  | last gap =>
    rw [← List.append_assoc]
    exact .last (more ++ gap)
  | next gap strung =>
    rw [← List.append_assoc]
    exact .next (more ++ gap) strung

theorem strung_iff {parts : List String} {cs : List Char} :
    Strung final parts cs ↔ ∃ (gap : String) (gaps : List String), gaps.length = parts.length ∧
      cs = gap.toList ++ ((String.join (List.zipWith (· ++ ·) parts gaps)).toList ++ final) := by
  constructor
  · intro h
    induction h with
    | last gap => exact ⟨String.ofList gap, [], rfl, by simp⟩
    | next gap strung ih =>
      obtain ⟨gap', gaps, hlen, rfl⟩ := ih
      exact ⟨String.ofList gap, gap' :: gaps, by rw [List.length_cons, List.length_cons, hlen],
        by simp [String.toList_join]⟩
  · rintro ⟨gap, gaps, hlen, rfl⟩
    induction parts generalizing gap gaps with
    | nil =>
      have hlast : Strung final [] (gap.toList ++ final) := .last gap.toList
      simpa [String.toList_join] using hlast
    | cons part parts ih =>
      obtain ⟨gap', gaps, rfl⟩ := List.exists_cons_of_length_eq_add_one hlen
      have hnext : Strung final (part :: parts) (gap.toList ++ (part.toList ++ _)) :=
        .next gap.toList (ih gap' gaps (Nat.succ.inj hlen))
      simpa [String.toList_join] using hnext

/-! ### Searching -/

theorem after?_eq_some_iff {part cs rest : List Char} :
    after? part cs = some rest ↔ cs = part ++ rest := by
  induction part generalizing cs with
  | nil => simp [after?]
  | cons p part ih =>
    cases cs with
    | nil => simp [after?]
    | cons c cs =>
      by_cases hc : p = c
      · simp [after?, hc, ih]
      · simp [after?, hc, Ne.symm hc]

theorem afterFirst?_sound {part cs rest : List Char} (h : afterFirst? part cs = some rest) :
    ∃ gap, cs = gap ++ (part ++ rest) := by
  induction cs with
  | nil =>
    rw [afterFirst?, after?_eq_some_iff] at h
    exact ⟨[], h⟩
  | cons c cs ih =>
    rcases Option.or_eq_some_iff.mp h with here | ⟨-, later⟩
    · rw [after?_eq_some_iff] at here
      exact ⟨[], here⟩
    · obtain ⟨gap, rfl⟩ := ih later
      exact ⟨c :: gap, rfl⟩

/-- What stands behind any occurrence of a part is the end of what stands behind its first one. -/
theorem afterFirst?_complete (gap part rest : List Char) :
    ∃ rest', afterFirst? part (gap ++ (part ++ rest)) = some rest' ∧ rest <:+ rest' := by
  induction gap with
  | nil =>
    have hhere : after? part (part ++ rest) = some rest := after?_eq_some_iff.mpr rfl
    refine ⟨rest, ?_, List.suffix_rfl⟩
    rw [List.nil_append]
    cases hcs : part ++ rest with
    | nil => rw [afterFirst?, ← hcs, hhere]
    | cons c cs => rw [afterFirst?, ← hcs, hhere, Option.some_or]
  | cons c gap ih =>
    obtain ⟨rest', hlater, hsuffix⟩ := ih
    rw [List.cons_append, afterFirst?]
    cases hhere : after? part (c :: (gap ++ (part ++ rest))) with
    | none => exact ⟨rest', by rw [Option.none_or, hlater], hsuffix⟩
    | some earlier =>
      refine ⟨earlier, Option.some_or, ?_⟩
      have hcs := after?_eq_some_iff.mp hhere
      have hlength := congrArg List.length hcs
      simp only [List.length_cons, List.length_append] at hlength
      have hrest : rest <:+ part ++ earlier := by
        rw [← hcs]
        exact ⟨c :: gap ++ part, by simp⟩
      exact List.suffix_of_suffix_length_le hrest (List.suffix_append part earlier) (by omega)

/-- **Taking each part where it occurs first** finds a way to take a text apart if there is any. -/
theorem afterParts?_iff {parts : List String} {cs : List Char} :
    (∃ rest, afterParts? parts cs = some rest ∧ final <:+ rest) ↔ Strung final parts cs := by
  induction parts generalizing cs with
  | nil =>
    constructor
    · rintro ⟨_, ⟨⟩, gap, rfl⟩
      exact .last gap
    · rintro ⟨gap⟩
      exact ⟨_, rfl, gap, rfl⟩
  | cons part parts ih =>
    constructor
    · rintro ⟨rest, hparts, hfinal⟩
      obtain ⟨behind, hfirst, hrest⟩ := Option.bind_eq_some_iff.mp hparts
      obtain ⟨gap, rfl⟩ := afterFirst?_sound hfirst
      exact .next gap (ih.mp ⟨rest, hrest, hfinal⟩)
    · rintro @⟨⟩
      rename_i gap behind strung
      obtain ⟨earlier, hfirst, hsuffix⟩ := afterFirst?_complete gap part.toList behind
      obtain ⟨rest, hrest, hfinal⟩ := ih.mpr (strung.of_suffix hsuffix)
      exact ⟨rest, Option.bind_eq_some_iff.mpr ⟨earlier, hfirst, hrest⟩, hfinal⟩

/-! ### Patterns -/

theorem matchesText_iff {p : Pattern} {s : String} : matchesText p s = true ↔
    ∃ (gap : String) (gaps : List String), gaps.length = p.middle.length ∧
      s = p.filled gap gaps := by
  have hfound : matchesText p s = true ↔ ∃ rest,
      after? (p.initial.getD "").toList s.toList = some rest ∧
        Strung (p.final.getD "").toList p.middle rest := by
    unfold matchesText
    dsimp only
    cases after? (p.initial.getD "").toList s.toList with
    | none => simp
    | some rest =>
      simp only [Option.bind_some, Option.some_inj, exists_eq_left', ← afterParts?_iff]
      cases afterParts? p.middle rest <;> simp
  rw [hfound]
  have htexts : ∀ t, s = t ↔ s.toList = t.toList := fun t => String.toList_inj.symm
  simp only [after?_eq_some_iff, strung_iff, Pattern.filled, htexts, String.toList_append,
    List.append_assoc]
  constructor
  · rintro ⟨_, hs, gap, gaps, hlen, rfl⟩
    exact ⟨gap, gaps, hlen, hs⟩
  · rintro ⟨gap, gaps, hlen, hs⟩
    exact ⟨_, hs, gap, gaps, hlen, rfl⟩

mutual

/-- Of a list, one of the texts that it holds at any depth is to match. -/
theorem matchesValue_iff (p : Pattern) : ∀ v : Value,
    matchesValue p v = true ↔ ∃ s, .text s ∈ v.leaves ∧ matchesText p s = true
  | .text s => by simp [matchesValue, Value.leaves]
  | .list items => by rw [matchesValue, Value.leaves, matchesAny_iff p items]
  | .boolean _ | .integer _ | .real _ => by simp [matchesValue, Value.leaves]

theorem matchesAny_iff (p : Pattern) : ∀ items : List Value,
    matchesAny p items = true ↔ ∃ s, .text s ∈ Value.leavesAll items ∧ matchesText p s = true
  | [] => by simp [matchesAny, Value.leavesAll]
  | v :: rest => by
    rw [matchesAny, Bool.or_eq_true, matchesValue_iff p v, matchesAny_iff p rest, Value.leavesAll,
      ← exists_or]
    simp only [List.mem_append, or_and_right]

end

/-- **Patterns.**  An attribute passes the test by a pattern exactly if its value is, or holds at
some depth, a text which is the pattern with its gaps filled; nothing but a text passes. -/
theorem accepts_substring_iff (source : String → Option Value) (name : String) (p : Pattern) :
    accepts source (.substring name p) = true ↔
      ∃ v s, source name = some v ∧ .text s ∈ v.leaves ∧
        ∃ (gap : String) (gaps : List String), gaps.length = p.middle.length ∧
          s = p.filled gap gaps := by
  rw [accepts, Option.any_eq_true]
  simp only [matchesValue_iff, matchesText_iff]
  constructor
  · rintro ⟨v, hv, s, hs, hgaps⟩
    exact ⟨v, s, hv, hs, hgaps⟩
  · rintro ⟨v, s, hv, hs, hgaps⟩
    exact ⟨v, hv, s, hs, hgaps⟩

/-- Parts do not overlap, and the last one stands at the end. -/
example : matchesText ⟨some "ab", [], some "ba"⟩ "aba" = false ∧
    matchesText ⟨none, ["ab", "b"], some "b"⟩ "abcbxab" = true := by decide

/-! ### What writing a filter down keeps of its meaning -/

mutual

/-- The tests on attributes that a filter is built from. -/
def tests : Filter → List Filter
  | all parts => testsAll parts
  | any parts => testsAll parts
  | negate part => part.tests
  | f => [f]

/-- The tests of each filter of a list. -/
def testsAll : List Filter → List Filter
  | [] => []
  | p :: rest => p.tests ++ testsAll rest

end

/-- The test by a pattern without parts. -/
def textual (name : String) : Filter := .substring name ⟨none, [], none⟩

variable {source : String → Option Value}

/-- A pattern without parts asks for some text. -/
theorem accepts_textual_iff {name : String} : accepts source (textual name) = true ↔
    ∃ v s, source name = some v ∧ .text s ∈ v.leaves := by
  have hany : ∀ s, matchesText ⟨none, [], none⟩ s = true := fun s => by
    simp [matchesText, after?, afterParts?]
  rw [textual, accepts, Option.any_eq_true]
  simp only [matchesValue_iff, hany, and_true]
  constructor
  · rintro ⟨v, hv, s, hs⟩
    exact ⟨v, s, hv, hs⟩
  · rintro ⟨v, s, hv, hs⟩
    exact ⟨v, hv, s, hs⟩

/-- Every attribute that a filter only asks for some text holds one, if it is there. -/
def Worded (source : String → Option Value) (f : Filter) : Prop :=
  ∀ name, textual name ∈ f.tests → ∀ v, source name = some v → ∃ s, .text s ∈ v.leaves

/-- A test by a pattern without parts becomes one for presence, which any value passes. -/
theorem accepts_settled_textual_iff {name : String} :
    accepts source (textual name).settled = accepts source (textual name) ↔
      ∀ v, source name = some v → ∃ s, .text s ∈ v.leaves := by
  have hpresent : (textual name).settled = .present name := by rw [textual, settled, if_pos rfl]
  rw [hpresent, Bool.eq_iff_iff, accepts_textual_iff, accepts, Option.isSome_iff_exists]
  constructor
  · intro h v hv
    obtain ⟨w, s, hw, hs⟩ := h.mp ⟨v, hv⟩
    obtain rfl := Option.some.inj (hv.symm.trans hw)
    exact ⟨s, hs⟩
  · intro h
    constructor
    · rintro ⟨v, hv⟩
      obtain ⟨s, hs⟩ := h v hv
      exact ⟨v, s, hv, hs⟩
    · rintro ⟨v, -, hv, -⟩
      exact ⟨v, hv⟩

theorem settled_substring {name : String} {p : Pattern} :
    (substring name p).settled = substring name p ∨ substring name p = textual name := by
  rw [settled]
  split
  · next he => exact .inr (by rw [he, textual])
  · exact .inl rfl

mutual

/-- A test stays as it is when it is settled, unless it is by a pattern without parts. -/
theorem settled_of_mem_tests : ∀ (f : Filter) {t : Filter}, t ∈ f.tests →
    t.settled = t ∨ ∃ name, t = textual name
  | all parts, _, h => settled_of_mem_testsAll parts h
  | any parts, _, h => settled_of_mem_testsAll parts h
  | negate part, _, h => settled_of_mem_tests part h
  | present _, _, h => .inl (by obtain rfl := List.mem_singleton.mp h; rfl)
  | item _ _ _, _, h => .inl (by obtain rfl := List.mem_singleton.mp h; rfl)
  | substring name _, _, h => by
    obtain rfl := List.mem_singleton.mp h
    exact settled_substring.imp_right fun he => ⟨name, he⟩

theorem settled_of_mem_testsAll : ∀ (parts : List Filter) {t : Filter}, t ∈ testsAll parts →
    t.settled = t ∨ ∃ name, t = textual name
  | p :: rest, _, h => (List.mem_append.mp h).elim (settled_of_mem_tests p)
    (settled_of_mem_testsAll rest)

end

/-- The tests of a filter that settling leaves their meaning. -/
theorem accepts_settled_tests_iff {f : Filter} :
    (∀ t ∈ f.tests, accepts source t.settled = accepts source t) ↔ Worded source f := by
  constructor
  · intro h name hname
    exact accepts_settled_textual_iff.mp (h _ hname)
  · intro h t ht
    rcases settled_of_mem_tests f ht with heq | ⟨name, rfl⟩
    · rw [heq]
    · exact accepts_settled_textual_iff.mpr (h name ht)

mutual

/-- A filter keeps its meaning if its tests do. -/
theorem accepts_settled : ∀ f : Filter,
    (∀ t ∈ f.tests, accepts source t.settled = accepts source t) →
      accepts source f.settled = accepts source f
  | all parts, h => (acceptsAll_settledAll parts h).1
  | any parts, h => (acceptsAll_settledAll parts h).2
  | negate part, h => congrArg (!·) (accepts_settled part h)
  | present _, _ => rfl
  | item _ _ _, _ => rfl
  | substring _ _, h => h _ List.mem_cons_self

theorem acceptsAll_settledAll : ∀ parts : List Filter,
    (∀ t ∈ testsAll parts, accepts source t.settled = accepts source t) →
      acceptsAll source (settledAll parts) = acceptsAll source parts ∧
        acceptsAny source (settledAll parts) = acceptsAny source parts
  | [], _ => ⟨rfl, rfl⟩
  | p :: rest, h => by
    have hp := accepts_settled p fun t ht => h t (List.mem_append_left _ ht)
    obtain ⟨hall, hany⟩ := acceptsAll_settledAll rest fun t ht => h t (List.mem_append_right _ ht)
    simp only [settledAll, acceptsAll, acceptsAny, hp, hall, hany, and_self]

end

/-- **Reading a filter back.**  The written form of a filter that was read is read again.  What
comes back asks for the presence of an attribute wherever the filter asks for it by a pattern
without parts, and is the same otherwise.  The one test differs from the other on a source just if
that has a value without any text for the attribute; apart from such sources the filter that comes
back passes what the first one passed. -/
theorem parse_render_meaning {s : String} {f : Filter} (h : parse s = .ok f) :
    parse f.render = .ok f.settled ∧ ∀ source,
      ((∀ t ∈ f.tests, accepts source t.settled = accepts source t) ↔ Worded source f) ∧
        (Worded source f → accepts source f.settled = accepts source f) := by
  have hread : readText s.toList = .ok f := by
    unfold parse at h
    cases hread : readText s.toList <;> simp_all [Except.mapError]
  have hback : readText f.chars = .ok f.settled := (readText_sound hread).formed.readText_chars
  refine ⟨?_, fun source => ⟨accepts_settled_tests_iff, fun worded => ?_⟩⟩
  · simp only [parse, render, String.toList_ofList, hback, Except.mapError]
  · exact accepts_settled f (accepts_settled_tests_iff.mpr worded)

/-- Of two tests by patterns, only the one without parts comes back as another. -/
theorem parse_render_meaning_starred :
    ∃ f, parse "(|(a=**)(b=x*))" = .ok f ∧ parse f.render = .ok f.settled ∧
      ∀ source : String → Option Value, (∀ v, source "a" = some v → ∃ s, .text s ∈ v.leaves) →
        accepts source f.settled = accepts source f := by
  have hparse : parse "(|(a=**)(b=x*))" =
      .ok (.any [textual "a", .substring "b" ⟨some "x", [], none⟩]) := by rfl
  obtain ⟨hback, hmeaning⟩ := parse_render_meaning hparse
  refine ⟨_, hparse, hback, fun source h => (hmeaning source).2 fun name hname => ?_⟩
  obtain rfl : name = "a" := by simpa [tests, testsAll, textual] using hname
  exact h

/-- A number is present but is no text. -/
theorem parse_render_drifts : ∃ (f g : Filter) (source : String → Option Value),
    parse "(a=**)" = .ok f ∧ parse f.render = .ok g ∧
      accepts source f = false ∧ accepts source g = true :=
  ⟨textual "a", .present "a", fun name => if name = "a" then some (.integer 5) else none,
    rfl, rfl, by decide, by decide⟩

end Filter
end Provisioning
