import Mathlib.Data.Fintype.Prod
import Mathlib.Data.List.SplitLengths
import Mathlib.Tactic.IntervalCases
import Provisioning.MemberPid

/-! # When two minted pids are the same

The pid of a member is that of its factory, a point, and an identifier.  How sixteen random bytes
are marked as an identifier, and how an identifier is written, is given from outside: `Marks` and
`Writes` say what is relied on.  Nothing is lost in writing (`Writes.injective`), and marking loses
the bits that it overwrites and no others (`Marks.eq_iff`).  As what is written always takes up 36
characters, the pid of the factory can be told from it, whatever characters that consists of.
-/
namespace Provisioning
namespace MemberPid

/-! ### What is relied on -/

/-- The bits of an identifier that are left as they were drawn: all but the version, in the upper
half of the seventh byte, and the variant, in the two upper bits of the ninth. -/
def IsDrawn (place : Fin 16) (bit : Fin 8) : Prop :=
  ¬(place = 6 ∧ 4 ≤ bit) ∧ ¬(place = 8 ∧ 6 ≤ bit)

instance (place : Fin 16) (bit : Fin 8) : Decidable (IsDrawn place bit) :=
  inferInstanceAs (Decidable (_ ∧ _))

/-- There are 122 of them. -/
example : (Finset.univ.filter fun p : Fin 16 × Fin 8 => IsDrawn p.1 p.2).card = 122 := by
  decide +kernel

/-- What marking bytes as an identifier does. -/
structure Marks (marking : Bytes → Bytes) : Prop where
  /-- The upper half of the seventh byte becomes 4. -/
  version : ∀ draw, (marking draw)[6].toNat / 2 ^ 4 = 4
  /-- The two upper bits of the ninth byte become 10. -/
  variant : ∀ draw, (marking draw)[8].toNat / 2 ^ 6 = 0b10
  drawn : ∀ draw place bit, IsDrawn place bit →
    (marking draw)[place].toNat.testBit bit = draw[place].toNat.testBit bit

/-- The digits of the bytes in order, in groups of 4, 2, 2, 2 and 6 bytes. -/
def groups (id : Bytes) : List (List Char) :=
  ([4, 2, 2, 2, 6].splitLengths id.toList).map (List.flatMap hex)

/-- What writing an identifier does: the groups are joined by hyphens. -/
def Writes (writing : Bytes → String) : Prop :=
  ∀ id, writing id = String.ofList (['-'].intercalate (groups id))

theorem toList_eq (id : Bytes) : id.toList =
    [id[0], id[1], id[2], id[3], id[4], id[5], id[6], id[7], id[8], id[9], id[10], id[11],
      id[12], id[13], id[14], id[15]] := by
  refine List.ext_getElem (by simp) fun i hi _ => ?_
  rw [Vector.length_toList] at hi
  interval_cases i <;> simp

/-! ### The way things are marked and written here -/

theorem toNat_markAt_version (b : UInt8) : (markAt 6 b).toNat = 4 * 2 ^ 4 + b.toNat % 2 ^ 4 := by
  have hbyte : ∀ n < 256, n &&& 15 ||| 64 = 4 * 2 ^ 4 + n % 2 ^ 4 := by decide +kernel
  exact hbyte b.toNat b.toNat_lt

theorem toNat_markAt_variant (b : UInt8) :
    (markAt 8 b).toNat = 0b10 * 2 ^ 6 + b.toNat % 2 ^ 6 := by
  have hbyte : ∀ n < 256, n &&& 63 ||| 128 = 0b10 * 2 ^ 6 + n % 2 ^ 6 := by decide +kernel
  exact hbyte b.toNat b.toNat_lt

/-- A number written above the lower bits of another one leaves them alone. -/
theorem testBit_overwritten (m n : Nat) {k j : Nat} (hj : j < k) :
    (m * 2 ^ k + n % 2 ^ k).testBit j = n.testBit j := by
  rw [Nat.mul_comm, Nat.testBit_two_pow_mul_add _ (Nat.mod_lt _ (Nat.two_pow_pos k)), if_pos hj,
    Nat.testBit_mod_two_pow]
  simp [hj]

theorem marks_mark : Marks mark where
  version draw := by
    rw [mark, Vector.getElem_mapIdx, toNat_markAt_version]
    omega
  variant draw := by
    rw [mark, Vector.getElem_mapIdx, toNat_markAt_variant]
    omega
  drawn draw place bit hdrawn := by
    show (mark draw)[place.val].toNat.testBit bit = _
    rw [mark, Vector.getElem_mapIdx]
    by_cases hversion : place = 6
    · subst hversion
      exact (congrArg (Nat.testBit · bit) (toNat_markAt_version _)).trans
        (testBit_overwritten _ _ (by have := hdrawn.1; omega))
    · by_cases hvariant : place = 8
      · subst hvariant
        exact (congrArg (Nat.testBit · bit) (toNat_markAt_variant _)).trans
          (testBit_overwritten _ _ (by have := hdrawn.2; omega))
      · rw [markAt, if_neg (by omega), if_neg (by omega)]
        rfl

theorem writes_write : Writes write := by
  intro id
  rw [write, groups, toList_eq]
  rfl

/-! ### Writing loses nothing -/

/-- Two bytes with the same digits are the same. -/
theorem hex_injective {b c : UInt8} (h : hex b = hex c) : b = c := by
  have hdigit : ∀ m < 16, ∀ n < 16, Nat.digitChar m = Nat.digitChar n → m = n := by decide
  simp only [hex, List.cons.injEq, and_true] at h
  have hb := b.toNat_lt
  have hc := c.toNat_lt
  have hupper := hdigit _ (by omega) _ (by omega) h.1
  have hlower := hdigit _ (by omega) _ (by omega) h.2
  refine UInt8.toNat_inj.mp ?_
  omega

theorem flatMap_hex_injective : ∀ {l l' : List UInt8}, l.flatMap hex = l'.flatMap hex → l = l'
  | [], [], _ => rfl
  | [], c :: l', h => by simp [hex] at h
  | b :: l, [], h => by simp [hex] at h
  | b :: l, c :: l', h => by
    rw [List.flatMap_cons, List.flatMap_cons] at h
    obtain ⟨hbyte, hrest⟩ := List.append_inj h rfl
    rw [hex_injective hbyte, flatMap_hex_injective hrest]

/-- Groups of known lengths can be told apart. -/
theorem intercalate_injective {α : Type} {sep : List α} : ∀ {gs gs' : List (List α)},
    gs.map List.length = gs'.map List.length → sep.intercalate gs = sep.intercalate gs' → gs = gs'
  | [], [], _, _ => rfl
  | [g], [g'], _, h => by simpa using h
  | [g], g' :: k' :: gs', hlen, _ => by simp at hlen
  | g :: k :: gs, [g'], hlen, _ => by simp at hlen
  | g :: k :: gs, g' :: k' :: gs', hlen, h => by
    obtain ⟨hhead, htail⟩ := List.cons_eq_cons.mp hlen
    rw [List.intercalate_cons_cons, List.intercalate_cons_cons, List.append_assoc,
      List.append_assoc] at h
    obtain ⟨hfirst, hrest⟩ := List.append_inj h hhead
    rw [hfirst, intercalate_injective htail (List.append_cancel_left hrest)]

@[simp] theorem map_length_groups (id : Bytes) :
    (groups id).map List.length = [8, 4, 4, 4, 12] := by
  rw [groups, toList_eq]
  rfl

theorem flatten_groups (id : Bytes) : (groups id).flatten = id.toList.flatMap hex := by
  rw [groups, toList_eq]
  rfl

theorem groups_injective {x y : Bytes} (h : groups x = groups y) : x = y := by
  have hdigits : x.toList.flatMap hex = y.toList.flatMap hex := by
    rw [← flatten_groups, ← flatten_groups, h]
  exact Vector.toList_inj.mp (flatMap_hex_injective hdigits)

@[simp] theorem length_groups (id : Bytes) : (['-'].intercalate (groups id)).length = 36 := by
  rw [groups, toList_eq]
  rfl

namespace Writes

variable (h : Writes writing) {x y : Bytes}

include h in
theorem injective (heq : writing x = writing y) : x = y := by
  rw [h x, h y] at heq
  refine groups_injective (intercalate_injective ?_ (String.ofList_injective heq))
  rw [map_length_groups, map_length_groups]

include h in
theorem length_toList (id : Bytes) : (writing id).toList.length = 36 := by
  rw [h id, String.toList_ofList, length_groups]

end Writes

/-! ### Marking loses what it overwrites -/

theorem testBit_of_div_eq {m n k j : Nat} (h : n / 2 ^ k = m) (hj : k ≤ j) :
    n.testBit j = m.testBit (j - k) := by
  rw [← h, Nat.testBit_div_two_pow, Nat.sub_add_cancel hj]

/-- A bit that is not drawn is the same in all identifiers. -/
theorem Marks.testBit_eq (h : Marks marking) (a b : Bytes) {place : Fin 16} {bit : Fin 8}
    (hmarked : ¬IsDrawn place bit) :
    (marking a)[place].toNat.testBit bit = (marking b)[place].toNat.testBit bit := by
  rw [IsDrawn, not_and_or, not_not, not_not] at hmarked
  rcases hmarked with ⟨rfl, hbit⟩ | ⟨rfl, hbit⟩
  · exact (testBit_of_div_eq (h.version a) hbit).trans (testBit_of_div_eq (h.version b) hbit).symm
  · exact (testBit_of_div_eq (h.variant a) hbit).trans (testBit_of_div_eq (h.variant b) hbit).symm

/-- Identifiers are the same exactly if the same bits were drawn for them. -/
theorem Marks.eq_iff (h : Marks marking) (a b : Bytes) : marking a = marking b ↔
    ∀ place bit, IsDrawn place bit → a[place].toNat.testBit bit = b[place].toNat.testBit bit := by
  constructor
  · intro heq place bit hdrawn
    rw [← h.drawn a place bit hdrawn, heq, h.drawn b place bit hdrawn]
  · intro hsame
    refine Vector.ext fun i hi => UInt8.toNat_inj.mp (Nat.eq_of_testBit_eq fun j => ?_)
    by_cases hj : j < 8
    · by_cases hdrawn : IsDrawn ⟨i, hi⟩ ⟨j, hj⟩
      · exact (h.drawn a _ _ hdrawn).trans
          ((hsame _ _ hdrawn).trans (h.drawn b _ _ hdrawn).symm)
      · exact h.testBit_eq a b hdrawn
    · have hbyte (c : UInt8) : c.toNat.testBit j = false :=
        Nat.testBit_lt_two_pow (c.toNat_lt.trans_le (Nat.pow_le_pow_right (by omega) (by omega)))
      rw [hbyte, hbyte]

/-! ### The shape of what is minted -/

/-- A character of lower-case hexadecimal notation. -/
def IsHex (c : Char) : Prop := c ∈ "0123456789abcdef".toList

/-- The text of a random identifier. -/
structure IsIdentifier (s : List Char) : Prop where
  groups : ∃ gs : List (List Char), s = ['-'].intercalate gs ∧
    gs.map List.length = [8, 4, 4, 4, 12] ∧ ∀ g ∈ gs, ∀ c ∈ g, IsHex c
  length : s.length = 36
  /-- The version. -/
  version : s[14]? = some '4'
  /-- The variant. -/
  variant : ∃ c ∈ ['8', '9', 'a', 'b'], s[19]? = some c

theorem isHex_of_mem_hex {b : UInt8} {c : Char} (hc : c ∈ hex b) : IsHex c := by
  have hdigit : ∀ n < 16, IsHex (Nat.digitChar n) := by
    unfold IsHex
    decide
  have hb := b.toNat_lt
  simp only [hex, List.mem_cons, List.not_mem_nil, or_false] at hc
  rcases hc with rfl | rfl
  · exact hdigit _ (by omega)
  · exact hdigit _ (by omega)

/-- Of what bytes the digits in the places of version and variant come. -/
theorem marked_digits (id : Bytes) :
    (['-'].intercalate (groups id))[14]? = some (Nat.digitChar (id[6].toNat / 2 ^ 4)) ∧
      (['-'].intercalate (groups id))[19]? = some (Nat.digitChar (id[8].toNat / 2 ^ 4)) := by
  rw [groups, toList_eq]
  exact ⟨rfl, rfl⟩

theorem Marks.isIdentifier (h : Marks marking) (draw : Bytes) :
    IsIdentifier (['-'].intercalate (groups (marking draw))) where
  groups := by
    refine ⟨_, rfl, map_length_groups _, fun g hg c hc => ?_⟩
    obtain ⟨bytes, -, rfl⟩ := List.mem_map.mp hg
    obtain ⟨b, -, hb⟩ := List.mem_flatMap.mp hc
    exact isHex_of_mem_hex hb
  length := length_groups _
  version := by rw [(marked_digits _).1, h.version draw]; rfl
  variant := by
    have hdigit : ∀ n < 16, n / 4 = 0b10 → Nat.digitChar n ∈ ['8', '9', 'a', 'b'] := by decide
    have hbyte := (marking draw)[8].toNat_lt
    have hupper := h.variant draw
    exact ⟨_, hdigit _ (by omega) (by omega), (marked_digits _).2⟩

/-- **Pids are minted alike exactly from the same factory pid and the same drawn bits**, and each
has the factory pid, a point and the text of a random identifier. -/
theorem minted_eq_iff (hmark : Marks marking) (hwrite : Writes writing) (f g : String)
    (a b : Bytes) :
    (mintBy marking writing f a = mintBy marking writing g b ↔
      f = g ∧ ∀ place bit, IsDrawn place bit →
        a[place].toNat.testBit bit = b[place].toNat.testBit bit) ∧
    ∃ s, mintBy marking writing f a = f ++ "." ++ String.ofList s ∧ IsIdentifier s := by
  refine ⟨?_, ⟨_, congrArg (f ++ "." ++ ·) (hwrite (marking a)), hmark.isIdentifier a⟩⟩
  rw [← hmark.eq_iff]
  constructor
  · intro heq
    -- The last 36 characters are the identifier, so the rest is the pid of the factory.
    have hchars := congrArg String.toList heq
    simp only [mintBy, String.toList_append, List.append_assoc] at hchars
    obtain ⟨hfactory, hid⟩ := List.append_inj' hchars (by simp [hwrite.length_toList])
    refine ⟨String.toList_inj.mp hfactory, hwrite.injective (String.toList_inj.mp ?_)⟩
    exact List.append_cancel_left hid
  · rintro ⟨rfl, hid⟩
    rw [mintBy, mintBy, hid]

/-- Two draws that differ where version and variant are marked give one pid. -/
theorem minted_eq_iff_overwritten :
    let a : Bytes := .replicate 16 0xAB
    let b : Bytes := (a.set 6 0xFB).set 8 0xEB
    Marks mark ∧ Writes write ∧
      ((mint "F.1-" a = mint "F.1-" b ↔ "F.1-" = "F.1-" ∧ ∀ place bit, IsDrawn place bit →
        a[place].toNat.testBit bit = b[place].toNat.testBit bit) ∧
      ∃ s, mint "F.1-" a = "F.1-" ++ "." ++ String.ofList s ∧ IsIdentifier s) ∧
      a ≠ b ∧ mint "F.1-" a = mint "F.1-" b := by
  intro a b
  have h := minted_eq_iff marks_mark writes_write "F.1-" "F.1-" a b
  exact ⟨marks_mark, writes_write, h, by decide, h.1.mpr ⟨rfl, by decide +kernel⟩⟩

end MemberPid
end Provisioning
