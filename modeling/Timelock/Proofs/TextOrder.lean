import Mathlib.Data.List.Lex

/-!
# The order of texts

Texts are ordered by their code points.  Smaller code points are encoded by smaller bytes, so this
is the order of the encoded texts, byte by byte.
-/

namespace Timelock.Text

def utf8 (s : String) : List UInt8 := s.toUTF8.data.toList

/-- The bytes of one text stand before those of another one in a dictionary. -/
def BytesBefore (s t : String) : Prop := List.Lex (· < ·) (utf8 s) (utf8 t)

theorem utf8_eq_flatMap (s : String) : utf8 s = s.toList.flatMap String.utf8EncodeChar := by
  simp [utf8, ← String.utf8Encode_toList, List.utf8Encode]

/-! ## One character -/

theorem lex_cons_ofNat {m n : Nat} (hm : m < 256) (hn : n < 256) (xs ys : List UInt8) :
    List.Lex (· < ·) (UInt8.ofNat m :: xs) (UInt8.ofNat n :: ys) ↔
      m < n ∨ m = n ∧ List.Lex (· < ·) xs ys := by
  rw [List.cons_lex_cons_iff, UInt8.lt_iff_toNat_lt, ← UInt8.toNat_inj, UInt8.toNat_ofNat_of_lt' hm,
    UInt8.toNat_ofNat_of_lt' hn]

/-- The smaller of two numbers has smaller leading digits, or the same ones and a smaller last
digit. -/
theorem lt_or_digit_lt {m n : Nat} (h : m < n) :
    m / 64 < n / 64 ∨ m / 64 = n / 64 ∧ m % 64 < n % 64 := by
  omega

theorem toNat_val_lt (c : Char) : c.val.toNat < 0x110000 := by
  have hvalid := c.valid
  simp only [UInt32.isValidChar, Nat.isValidChar] at hvalid
  omega

/-- Whatever follows, the encoding of the smaller character comes first. -/
theorem lex_utf8EncodeChar {c d : Char} (h : c < d) (xs ys : List UInt8) :
    List.Lex (· < ·) (String.utf8EncodeChar c ++ xs) (String.utf8EncodeChar d ++ ys) := by
  have hlt : c.val.toNat < d.val.toNat := h
  have hbound := toNat_val_lt d
  simp only [String.utf8EncodeChar]
  generalize c.val.toNat = m at *
  generalize d.val.toNat = n at *
  -- The bytes of a code point are its digits to the base 64, so one division leads to the next.
  have hshift : ∀ k : Nat, k / 4096 = k / 64 / 64 ∧ k / 262144 = k / 64 / 64 / 64 := fun k ↦
    ⟨by omega, by omega⟩
  rw [(hshift m).1, (hshift m).2, (hshift n).1, (hshift n).2]
  have hlast := lt_or_digit_lt hlt
  have hthird : m / 64 < n / 64 → _ := lt_or_digit_lt
  have hsecond : m / 64 / 64 < n / 64 / 64 → _ := lt_or_digit_lt
  split_ifs <;>
    simp (disch := omega) only [List.cons_append, List.nil_append, lex_cons_ofNat] <;> omega

/-! ## Texts -/

theorem lex_flatMap_utf8EncodeChar {cs ds : List Char} (h : List.Lex (· < ·) cs ds) :
    List.Lex (· < ·) (cs.flatMap String.utf8EncodeChar) (ds.flatMap String.utf8EncodeChar) := by
  induction h with
  | nil =>
      rename_i d ds
      have hpos : 0 < (String.utf8EncodeChar d).length := by
        rw [String.length_utf8EncodeChar]
        exact d.utf8Size_pos
      obtain ⟨x, xs, hx⟩ := List.exists_cons_of_length_pos hpos
      rw [List.flatMap_cons, hx]
      exact .nil
  | cons _ ih => exact List.Lex.append_left (· < ·) ih _
  | rel hlt => exact lex_utf8EncodeChar hlt _ _

theorem bytesBefore_of_lt {s t : String} (h : s < t) : BytesBefore s t := by
  rw [BytesBefore, utf8_eq_flatMap, utf8_eq_flatMap]
  exact lex_flatMap_utf8EncodeChar h

/-- The order of texts is that of their bytes. -/
theorem lt_iff_bytesBefore {s t : String} : s < t ↔ BytesBefore s t := by
  refine ⟨bytesBefore_of_lt, fun h ↦ Decidable.by_contra fun hlt ↦ ?_⟩
  have hbefore : ¬ BytesBefore t s :=
    List.lex_asymm (fun hxy hyx ↦ UInt8.lt_asymm hxy hyx) h
  have hgt : ¬ t < s := fun hts ↦ hbefore (bytesBefore_of_lt hts)
  obtain rfl := String.le_antisymm (String.not_lt.1 hgt) (String.not_lt.1 hlt)
  exact hbefore h

end Timelock.Text
