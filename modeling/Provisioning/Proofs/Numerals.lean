import Mathlib.Data.List.Induction
import Mathlib.Data.Nat.Digits.Defs
import Provisioning.Filter.Match
import Provisioning.Proofs.Printing

/-! # Comparing with numerals

An integer is compared with the number that a text denotes.  Such a text is a numeral with white
space around it, and a numeral is an optional sign in front of one or more digits.  What it denotes
is said by the powers of ten (`Decimal.Digits`), and there is no end to it; a number outside of the
64-bit range is read but compares with nothing.

The written form of an integer is a numeral for it, so that the filters built from written numbers
follow the order of the numbers, up to both ends of the range.
-/
namespace Provisioning
namespace Decimal

/-! ### What numerals denote -/

/-- Digits that denote a natural number: each of them counts for the power of ten at its place. -/
structure Digits (ds : List Char) (n : Nat) : Prop where
  nonempty : ds ≠ []
  ascii : ∀ d ∈ ds, '0' ≤ d ∧ d ≤ '9'
  denotes : n = Nat.ofDigits 10 (ds.reverse.map digitValue)

/-- Numerals for integers: an optional sign, and digits. -/
inductive Numeral : List Char → Int → Prop
  | plain {ds : List Char} {n : Nat} (digits : Digits ds n) : Numeral ds n
  | plus {ds : List Char} {n : Nat} (digits : Digits ds n) : Numeral ('+' :: ds) n
  | minus {ds : List Char} {n : Nat} (digits : Digits ds n) : Numeral ('-' :: ds) (-n)

theorem value_eq_ofDigits (ds : List Char) :
    value ds = Nat.ofDigits 10 (ds.reverse.map digitValue) := by
  induction ds using List.reverseRecOn with
  | nil => rfl
  | append_singleton ds d ih =>
    rw [value_append_singleton, ih, List.reverse_append, List.reverse_singleton,
      List.singleton_append, List.map_cons, Nat.ofDigits_cons, Nat.add_comm]

theorem readNat?_eq_some_iff {ds : List Char} {n : Nat} :
    readNat? ds = some n ↔ Digits ds n := by
  have hread : readNat? ds = some n ↔
      (ds ≠ [] ∧ ∀ d ∈ ds, '0' ≤ d ∧ d ≤ '9') ∧ value ds = n := by
    simp [readNat?, isDigit]
  rw [hread, value_eq_ofDigits]
  constructor
  · rintro ⟨⟨nonempty, ascii⟩, denotes⟩
    exact ⟨nonempty, ascii, denotes.symm⟩
  · rintro ⟨nonempty, ascii, denotes⟩
    exact ⟨⟨nonempty, ascii⟩, denotes.symm⟩

/-- No digit is a sign, so that digits alone are read as a natural number. -/
theorem Digits.unsigned {ds : List Char} {n : Nat} (h : Digits ds n) :
    ds.head? ≠ some '-' ∧ ds.head? ≠ some '+' := by
  refine ⟨fun hc => ?_, fun hc => ?_⟩
  · exact absurd (h.ascii '-' (List.mem_of_head? hc)) (by decide)
  · exact absurd (h.ascii '+' (List.mem_of_head? hc)) (by decide)

theorem readInt?_unsigned {cs : List Char} (h : cs.head? ≠ some '-' ∧ cs.head? ≠ some '+') :
    readInt? cs = Option.map Int.ofNat (readNat? cs) := by
  unfold readInt?
  split
  · exact absurd rfl h.1
  · exact absurd rfl h.2
  · cases hread : readNat? cs <;> rfl

/-- **Reading** takes the numerals, each for the integer that it denotes. -/
theorem readInt?_eq_some_iff {cs : List Char} {b : Int} : readInt? cs = some b ↔ Numeral cs b := by
  constructor
  · intro h
    unfold readInt? at h
    split at h
    · next ds =>
      obtain ⟨n, hn, rfl⟩ : ∃ n, readNat? ds = some n ∧ -(n : Int) = b := by
        simpa [Option.bind_eq_some_iff] using h
      exact .minus (readNat?_eq_some_iff.mp hn)
    · next ds =>
      obtain ⟨n, hn, rfl⟩ : ∃ n, readNat? ds = some n ∧ (n : Int) = b := by
        simpa [Option.bind_eq_some_iff] using h
      exact .plus (readNat?_eq_some_iff.mp hn)
    · obtain ⟨n, hn, rfl⟩ : ∃ n, readNat? cs = some n ∧ (n : Int) = b := by
        simpa [Option.bind_eq_some_iff] using h
      exact .plain (readNat?_eq_some_iff.mp hn)
  · intro h
    cases h with
    | plain digits =>
      rw [readInt?_unsigned digits.unsigned, readNat?_eq_some_iff.mpr digits, Option.map_some,
        Int.ofNat_eq_natCast]
    | plus digits => simp [readInt?, readNat?_eq_some_iff.mpr digits]
    | minus digits => simp [readInt?, readNat?_eq_some_iff.mpr digits]

/-- An integer within the signed 64-bit range. -/
def InRange (b : Int) : Prop := int64Min ≤ b ∧ b ≤ int64Max

theorem inRange_toInt (n : Int64) : InRange n.toInt := by
  have hmin := n.le_toInt
  have hmax := n.toInt_lt
  unfold InRange int64Min int64Max
  omega

theorem toInt_ofInt {b : Int} (h : InRange b) : (Int64.ofInt b).toInt = b := by
  unfold InRange int64Min int64Max at h
  exact Int64.toInt_ofInt_of_le (by omega) (by omega)

theorem readInt64?_eq_some_iff {cs : List Char} {n : Int64} :
    readInt64? cs = some n ↔ Numeral cs n.toInt := by
  rw [← readInt?_eq_some_iff, readInt64?]
  cases hread : readInt? cs with
  | none => simp
  | some b =>
    dsimp only
    split
    · next hrange =>
      rw [Option.some_inj, Option.some_inj, ← Int64.toInt_inj, toInt_ofInt hrange]
    · next hrange =>
      refine iff_of_false (by simp) fun heq => hrange ?_
      rw [Option.some_inj.mp heq]
      exact inRange_toInt n

/-! ### Written numbers -/

theorem digits_repr (n : Nat) : Digits n.repr.toList n := by
  rw [Nat.toList_repr]
  refine ⟨Nat.toDigits_ne_nil, fun d hd => ?_, ?_⟩
  · have hdigit := Nat.isDigit_of_mem_toDigits (by decide) (by decide) hd
    simpa [Char.isDigit, Char.le_def] using hdigit
  · rw [← value_eq_ofDigits]
    exact (Nat.ofDigitChars_ten_toDigits).symm

/-- The written form of an integer is a numeral for it. -/
theorem numeral_toString (b : Int) : Numeral (toString b).toList b := by
  rw [Int.toString_eq_repr, Int.repr_eq_if]
  split
  · next hpos =>
    have hnumeral := Numeral.plain (digits_repr b.toNat)
    rwa [Int.toNat_of_nonneg hpos] at hnumeral
  · next hneg =>
    have hnumeral := Numeral.minus (digits_repr (-b).toNat)
    rw [Int.toNat_of_nonneg (by omega), Int.neg_neg] at hnumeral
    simpa using hnumeral

/-- The characters of a numeral. -/
theorem Numeral.chars {cs : List Char} {b : Int} (h : Numeral cs b) :
    cs ≠ [] ∧ ∀ c ∈ cs, c = '+' ∨ c = '-' ∨ '0' ≤ c ∧ c ≤ '9' := by
  cases h with
  | plain digits => exact ⟨digits.nonempty, fun c hc => .inr (.inr (digits.ascii c hc))⟩
  | plus digits =>
    refine ⟨by simp, List.forall_mem_cons.mpr ⟨.inl rfl, fun c hc => ?_⟩⟩
    exact .inr (.inr (digits.ascii c hc))
  | minus digits =>
    refine ⟨by simp, List.forall_mem_cons.mpr ⟨.inr (.inl rfl), fun c hc => ?_⟩⟩
    exact .inr (.inr (digits.ascii c hc))

end Decimal

/-- What a comparison says of two integers. -/
def Comparison.Holds (c : Comparison) (a b : Int) : Prop :=
  match c with
  | .equal | .approx => a = b
  | .atLeast => b ≤ a
  | .atMost => a ≤ b

instance (c : Comparison) (a b : Int) : Decidable (c.Holds a b) :=
  match c with
  | .equal | .approx => inferInstanceAs (Decidable (a = b))
  | .atLeast => inferInstanceAs (Decidable (b ≤ a))
  | .atMost => inferInstanceAs (Decidable (a ≤ b))

theorem Comparison.admits_compare_iff {c : Comparison} {a b : Int} :
    c.admits (compare a b) = true ↔ c.Holds a b := by
  cases c with
  | equal | approx => simp [admits, Holds]
  | atLeast => simp [admits, Holds, Int.compare_eq_lt]
  | atMost => simp [admits, Holds, Int.compare_eq_gt]

namespace Filter

/-! ### Texts that denote numbers -/

/-- A text is a numeral for an integer, with white space around it. -/
def Denotes (v : String) (b : Int) : Prop :=
  ∃ before numeral after, IsSpace before ∧ IsSpace after ∧
    v.toList = before ++ numeral ++ after ∧ Decimal.Numeral numeral b

/-- A text is what trimming leaves of it with white space on both sides. -/
theorem exists_surrounded (cs : List Char) : ∃ before after, IsSpace before ∧ IsSpace after ∧
    cs = before ++ Text.trimmed cs ++ after := by
  obtain ⟨before, hbefore, hcs, start⟩ := exists_space cs
  obtain ⟨after, hafter, hrest, -⟩ := exists_trimmed start
  have htrim : Text.trimmed (Text.trimStart cs) = Text.trimmed cs := by
    rw [Text.trimmed, trimStart_eq_self start, Text.trimmed]
  rw [htrim] at hrest
  exact ⟨before, after, hbefore, hafter, by rw [List.append_assoc, ← hrest, ← hcs]⟩

theorem isBlank_of_numeral {cs : List Char} {b : Int} (h : Decimal.Numeral cs b) :
    ∀ c ∈ cs, Text.isBlank c = false := by
  intro c hc
  obtain rfl | rfl | ⟨hlow, hhigh⟩ := h.chars.2 c hc
  · decide
  · decide
  · have hlow' : 48 ≤ c.toNat := hlow
    have hhigh' : c.toNat ≤ 57 := hhigh
    simp [Text.isBlank]
    omega

theorem denotes_iff {v : String} {b : Int} :
    Denotes v b ↔ Decimal.Numeral (Text.trimmed v.toList) b := by
  constructor
  · rintro ⟨before, numeral, after, hbefore, hafter, hv, h⟩
    have hplain := isBlank_of_numeral h
    rwa [hv, trimmed_surrounded hbefore hafter (fun c hc => hplain c (List.mem_of_head? hc))
      fun c hc => hplain c (List.mem_of_getLast? hc)]
  · intro h
    obtain ⟨before, after, hbefore, hafter, hv⟩ := exists_surrounded v.toList
    exact ⟨before, _, after, hbefore, hafter, hv, h⟩

/-- A text denotes one integer at most. -/
theorem Denotes.unique {v : String} {a b : Int} (ha : Denotes v a) (hb : Denotes v b) :
    a = b := by
  rw [denotes_iff, ← Decimal.readInt?_eq_some_iff] at ha hb
  exact Option.some_inj.mp (ha.symm.trans hb)

theorem denotes_toString (b : Int) : Denotes (toString b) b :=
  ⟨[], _, [], .nil, .nil, by simp, Decimal.numeral_toString b⟩

/-! ### Comparing -/

theorem compareInteger_iff {n : Int64} {c : Comparison} {v : String} :
    compareInteger n c v = true ↔
      ∃ b, Denotes v b ∧ Decimal.InRange b ∧ c.Holds n.toInt b := by
  have hread : compareInteger n c v = true ↔
      ∃ m : Int64, Decimal.readInt64? (Text.trimmed v.toList) = some m ∧
        c.admits (compare n.toInt m.toInt) = true := by
    unfold compareInteger
    cases Decimal.readInt64? (Text.trimmed v.toList) <;> simp
  simp only [hread, Decimal.readInt64?_eq_some_iff, ← denotes_iff, Comparison.admits_compare_iff]
  constructor
  · rintro ⟨m, hm, h⟩
    exact ⟨m.toInt, hm, Decimal.inRange_toInt m, h⟩
  · rintro ⟨b, hb, hrange, h⟩
    have hexact : (Int64.ofInt b).toInt = b := Decimal.toInt_ofInt hrange
    exact ⟨Int64.ofInt b, by rwa [hexact], by rwa [hexact]⟩

/-- Numbers beyond the range are no bounds, and a numeral has one sign at most. -/
example : compareInteger 5 .atMost "9223372036854775807" = true ∧
    compareInteger 5 .atMost "9223372036854775808" = false ∧
    compareInteger 5 .equal "\u00a0+0005 " = true ∧ compareInteger 5 .equal "+-5" = false ∧
    compareInteger 5 .equal "" = false := by decide

mutual

/-- Of a list, one of the values that it holds at any depth is to stand in the relation. -/
theorem compareValue_iff (c : Comparison) (v : String) : ∀ x : Value,
    compareValue c v x = true ↔ ∃ leaf ∈ x.leaves, compareValue c v leaf = true
  | .list items => by rw [compareValue, Value.leaves, compareAny_iff c v items]
  | .boolean _ | .integer _ | .real _ | .text _ => by simp [Value.leaves]

theorem compareAny_iff (c : Comparison) (v : String) : ∀ items : List Value,
    compareAny c v items = true ↔
      ∃ leaf ∈ Value.leavesAll items, compareValue c v leaf = true
  | [] => by simp [compareAny, Value.leavesAll]
  | x :: rest => by
    rw [compareAny, Bool.or_eq_true, compareValue_iff c v x, compareAny_iff c v rest,
      Value.leavesAll, ← exists_or]
    simp only [List.mem_append, or_and_right]

end

/-! ### Items written with numbers -/

theorem escape_of_plain {cs : List Char} (plain : ∀ c ∈ cs, isSpecial c = false) :
    escape cs = cs := by
  induction cs with
  | nil => rfl
  | cons c cs ih =>
    obtain ⟨hc, hcs⟩ := List.forall_mem_cons.mp plain
    rw [escape, hc, ih hcs]
    rfl

/-- A value without special characters is read from an item just as it is written there. -/
theorem parse_item {name v : String} (naming : IsName name) (c : Comparison)
    (plain : ∀ d ∈ v.toList, isSpecial d = false) :
    parse ("(" ++ name ++ String.ofList (sign c) ++ v ++ ")") = .ok (.item name c v) := by
  have hread : readText (item name c v).chars = .ok (item name c v) :=
    (Formed.item naming c v).readText_chars
  have hchars : ("(" ++ name ++ String.ofList (sign c) ++ v ++ ")").toList =
      (item name c v).chars := by
    simp [chars, escape_of_plain plain]
  unfold parse
  dsimp only
  rw [hchars, hread]
  rfl

theorem isSpecial_of_numeral {cs : List Char} {b : Int} (h : Decimal.Numeral cs b) :
    ∀ c ∈ cs, isSpecial c = false := by
  intro c hc
  obtain rfl | rfl | ⟨hlow, hhigh⟩ := h.chars.2 c hc
  · decide
  · decide
  · refine Bool.eq_false_iff.mpr fun hspecial => ?_
    obtain ((rfl | rfl) | rfl) | rfl : ((c = '(' ∨ c = ')') ∨ c = '*') ∨ c = '\\' := by
      simpa [isSpecial] using hspecial
    all_goals revert hlow hhigh; decide

variable {source : String → Option Value} {name : String}

theorem accepts_item_iff {c : Comparison} {v : String} {x : Value} (stored : source name = some x) :
    accepts source (.item name c v) = true ↔ compareValue c v x = true := by
  rw [accepts, stored, Option.any_some]

/-- **Integers compare as numbers.**

* An item passes an integer exactly if its text, without the white space around it, is a numeral for
  a number within the range and the comparison holds between the integer and that number.
* An item passes a list, however deep, exactly if it passes one of the values in it.
* For every number in the range, the items written with it are read, and they pass just the integers
  between which and the number the comparison holds. -/
theorem accepts_item_numeric :
    (∀ (source : String → Option Value) (name : String) (n : Int64) (c : Comparison) (v : String),
      source name = some (.integer n) →
        (accepts source (.item name c v) = true ↔
          ∃ b, Denotes v b ∧ Decimal.InRange b ∧ c.Holds n.toInt b)) ∧
    (∀ (source : String → Option Value) (name : String) (x : Value) (c : Comparison) (v : String),
      source name = some x →
        (accepts source (.item name c v) = true ↔
          ∃ leaf ∈ x.leaves, accepts (fun _ => some leaf) (.item name c v) = true)) ∧
    ∀ (name : String) (c : Comparison) (b : Int64), IsName name →
      ∃ f, parse ("(" ++ name ++ String.ofList (sign c) ++ toString b.toInt ++ ")") = .ok f ∧
        ∀ (source : String → Option Value) (n : Int64), source name = some (.integer n) →
          (accepts source f = true ↔ c.Holds n.toInt b.toInt) := by
  have hinteger (source : String → Option Value) (name : String) (n : Int64) (c : Comparison)
      (v : String) (stored : source name = some (.integer n)) :
      accepts source (.item name c v) = true ↔
        ∃ b, Denotes v b ∧ Decimal.InRange b ∧ c.Holds n.toInt b := by
    rw [accepts_item_iff stored, compareValue, compareInteger_iff]
  refine ⟨hinteger, fun source name x c v stored => ?_, fun name c b naming => ?_⟩
  · have hleaf (leaf : Value) : accepts (fun _ => some leaf) (.item name c v) = true ↔
        compareValue c v leaf = true := accepts_item_iff rfl
    rw [accepts_item_iff stored, compareValue_iff]
    simp only [hleaf]
  · have hplain := isSpecial_of_numeral (Decimal.numeral_toString b.toInt)
    refine ⟨_, parse_item naming c hplain, fun source n stored => ?_⟩
    rw [hinteger source name n c _ stored]
    constructor
    · rintro ⟨b', hb', -, h⟩
      rwa [(denotes_toString b.toInt).unique hb']
    · intro h
      exact ⟨b.toInt, denotes_toString b.toInt, Decimal.inRange_toInt b, h⟩

/-- A sign and leading zeros, a number inside lists, and the least number of the range. -/
theorem accepts_item_numeric_least :
    accepts (fun _ => some (.integer 7)) (.item "level" .equal " +007") = true ∧
      accepts (fun _ => some (.list [.text "x", .list [.integer 7]]))
        (.item "level" .equal " +007") = true ∧
      ∃ f, parse "(level<=-9223372036854775808)" = .ok f ∧
        accepts (fun _ => some (.integer Int64.minValue)) f = true ∧
        accepts (fun _ => some (.integer 0)) f = false := by
  obtain ⟨hinteger, hlist, hwritten⟩ := accepts_item_numeric
  have hdigits : Decimal.Digits ['0', '0', '7'] 7 := Decimal.readNat?_eq_some_iff.mp rfl
  have hdenotes : Denotes " +007" 7 :=
    ⟨[' '], _, [], by simp [IsSpace, Text.isBlank], .nil, rfl, .plus hdigits⟩
  have hseven : accepts (fun _ => some (.integer 7)) (.item "level" .equal " +007") = true :=
    (hinteger _ "level" 7 .equal " +007" rfl).mpr ⟨7, hdenotes, ⟨by decide, by decide⟩, rfl⟩
  have hname : IsName "level" :=
    ⟨by simp, by simp, by simp [Text.isBlank], by simp [Text.isBlank]⟩
  obtain ⟨f, hparse, hf⟩ := hwritten "level" .atMost Int64.minValue hname
  refine ⟨hseven, (hlist _ "level" _ .equal " +007" rfl).mpr ⟨.integer 7, ?_, hseven⟩, f, hparse,
    (hf _ Int64.minValue rfl).mpr (by decide), ?_⟩
  · simp [Value.leaves, Value.leavesAll]
  · exact Bool.eq_false_iff.mpr fun h => absurd ((hf _ 0 rfl).mp h) (by decide)

end Filter
end Provisioning
