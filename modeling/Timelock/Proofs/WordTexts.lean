import Mathlib.Data.Nat.Digits.Defs
import Timelock.Config.Resolve
import Timelock.Proofs.Trimming

/-!
# Texts of numbers

A number is read from its decimal digits, whatever blanks stand around them, and with or without a
plus sign before them.  No other text is read.
-/

namespace Timelock

namespace Text

def digitValue (c : Char) : Nat := c.toNat - '0'.toNat

/-- The text is made of blanks, perhaps a plus sign, decimal digits of the number, and blanks. -/
def Writes (s : String) (n : UInt64) : Prop :=
  ∃ before sign digits after : List Char,
    s.toList = before ++ (sign ++ digits ++ after) ∧
    (∀ c ∈ before ++ after, isBlank c = true) ∧ (sign = [] ∨ sign = ['+']) ∧
    digits ≠ [] ∧ (∀ c ∈ digits, '0' ≤ c ∧ c ≤ '9') ∧
    Nat.ofDigits 10 (digits.reverse.map digitValue) = n.toNat

theorem not_isBlank_of_digit {c : Char} (h : '0' ≤ c ∧ c ≤ '9') : ¬ isBlank c = true := by
  have hlow : 48 ≤ c.toNat := h.1
  have hhigh : c.toNat ≤ 57 := h.2
  simp [isBlank]
  omega

theorem isDigit_iff {c : Char} : c.isDigit = true ↔ '0' ≤ c ∧ c ≤ '9' := by
  simp only [Char.isDigit, Bool.and_eq_true, decide_eq_true_eq]
  rfl

end Text

open Text

theorem digitsValue?_eq_some_iff {cs : List Char} {n : Nat} :
    digitsValue? cs = some n ↔
      cs ≠ [] ∧ (∀ c ∈ cs, '0' ≤ c ∧ c ≤ '9') ∧
        Nat.ofDigits 10 (cs.reverse.map digitValue) = n := by
  have hvalue : cs.foldl (fun n c ↦ 10 * n + (c.toNat - 48)) 0 =
      Nat.ofDigits 10 (cs.reverse.map digitValue) := by
    rw [Nat.ofDigits_eq_foldr, List.foldr_map, List.foldr_reverse]
    simp only [digitValue, Nat.cast_id, Nat.add_comm (_ - _)]
    rfl
  rw [digitsValue?, hvalue]
  simp only [← isDigit_iff, ← List.all_eq_true]
  cases cs with
  | nil => simp
  | cons c cs => cases h : (c :: cs).all Char.isDigit <;> simp

/-- What is left of a text without a plus sign at its start. -/
def unsigned : List Char → List Char
  | '+' :: cs => cs
  | cs => cs

theorem unsigned_eq_iff {cs digits : List Char} (hne : digits ≠ [])
    (hdigits : ∀ c ∈ digits, '0' ≤ c ∧ c ≤ '9') :
    unsigned cs = digits ↔ ∃ sign, (sign = [] ∨ sign = ['+']) ∧ sign ++ digits = cs := by
  constructor
  · intro h
    unfold unsigned at h
    split at h
    next rest => exact ⟨['+'], .inr rfl, by rw [← h, List.singleton_append]⟩
    next => exact ⟨[], .inl rfl, h.symm⟩
  · rintro ⟨sign, rfl | rfl, rfl⟩
    · rw [List.nil_append]
      unfold unsigned
      split
      next => exact absurd (hdigits '+' List.mem_cons_self).1 (by decide)
      next => rfl
    · rfl

theorem wordOfText?_eq_some_iff_digitsValue? {s : String} {n : UInt64} :
    wordOfText? s = some n ↔ digitsValue? (unsigned (trimChars s.toList)) = some n.toNat := by
  -- The sign is dropped by a match inside the reader, which gets a name before it is compared.
  delta wordOfText?
  extract_lets cs
  have hcs : cs = unsigned (trimChars s.toList) := rfl
  rw [← hcs]
  cases digitsValue? cs with
  | none => simp
  | some m =>
      constructor
      · intro h
        simp only [Option.ite_none_right_eq_some, Option.some.injEq] at h
        rw [← h.2, UInt64.toNat_ofNat_of_lt' h.1]
      · intro h
        obtain rfl := Option.some.inj h
        simp only [UInt64.toNat_lt_size, if_true, UInt64.ofNat_toNat]

/-- Exactly the texts that write a number of sixty-four bits are read, as that number. -/
theorem wordOfText?_eq_some_iff {s : String} {n : UInt64} :
    wordOfText? s = some n ↔ Writes s n := by
  rw [wordOfText?_eq_some_iff_digitsValue?, digitsValue?_eq_some_iff]
  constructor
  · rintro ⟨hne, hdigits, hvalue⟩
    obtain ⟨sign, hsign, htrim⟩ := (unsigned_eq_iff hne hdigits).1 rfl
    obtain ⟨before, after, hblank, hsplit⟩ := exists_trimChars s.toList
    refine ⟨before, sign, unsigned (trimChars s.toList), after, ?_, hblank, hsign, hne, hdigits,
      hvalue⟩
    rwa [htrim]
  · rintro ⟨before, sign, digits, after, hsplit, hblank, hsign, hne, hdigits, hvalue⟩
    have hword : ∀ c ∈ sign ++ digits, ¬ isBlank c = true := by
      intro c hc
      rcases List.mem_append.1 hc with hc | hc
      · rcases hsign with rfl | rfl
        · exact absurd hc List.not_mem_nil
        · obtain rfl := List.mem_singleton.1 hc
          decide
      · exact not_isBlank_of_digit (hdigits c hc)
    have htrim : trimChars s.toList = sign ++ digits := by
      rw [hsplit, trimChars_append hblank hword]
    rw [(unsigned_eq_iff hne hdigits).2 ⟨sign, hsign, htrim.symm⟩]
    exact ⟨hne, hdigits, hvalue⟩

example : wordOfText? "\t+0018446744073709551615 " = some 18446744073709551615 := by decide

example : wordOfText? "18446744073709551616" = none := by decide

end Timelock
