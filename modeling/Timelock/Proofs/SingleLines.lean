import Timelock.Proofs.NumberTexts
import Timelock.Text.Quoted

/-!
# Texts of a single line

No line feed is written of a number, and none of a value in its compact form: what stands for one
in a string is two other characters.
-/

namespace Timelock

def Text.OneLine (s : String) : Prop := '\n' ∉ s.toList

theorem newline_notMem_toDigits (n : Nat) : '\n' ∉ Nat.toDigits 10 n := by
  intro h
  exact absurd (Json.isDigit_of_mem_toDigits _ h) (by decide)

namespace Binary64

theorem newline_notMem_stripZeros {cs : List Char} (h : '\n' ∉ cs) : '\n' ∉ stripZeros cs := by
  intro hmem
  rw [stripZeros, List.mem_reverse] at hmem
  exact h (List.mem_reverse.1 ((List.dropWhile_sublist _).mem hmem))

theorem newline_notMem_magnitudeText (x : Binary64) : '\n' ∉ x.magnitudeText := by
  unfold magnitudeText
  split
  · decide
  · generalize x.shortestDecimal = decimal
    dsimp only
    generalize hall : Nat.toDigits 10 decimal.1 = all
    have hds := newline_notMem_stripZeros (hall ▸ newline_notMem_toDigits decimal.1)
    generalize stripZeros all = ds at hds ⊢
    have htake : ∀ k, '\n' ∉ ds.take k := fun k h ↦ hds (List.mem_of_mem_take h)
    have hdrop : ∀ k, '\n' ∉ ds.drop k := fun k h ↦ hds (List.mem_of_mem_drop h)
    have hzeros : ∀ k, '\n' ∉ List.replicate k '0' := fun k ↦ by simp
    have hexponent := newline_notMem_toDigits
    split_ifs
    · simp [htake, hzeros]
    · simp [htake, hzeros, hdrop]
    · simp [hzeros, hds]
    all_goals
      rcases ds with _ | ⟨c, _ | ⟨d, ds⟩⟩
      · simp [hexponent]
      · simpa [hexponent] using hds
      · simpa [hexponent] using hds

theorem newline_notMem_text (x : Binary64) : '\n' ∉ x.text := by
  have hmagnitude := x.newline_notMem_magnitudeText
  unfold text
  split
  · simpa using hmagnitude
  · exact hmagnitude

end Binary64

namespace Json

theorem Number.newline_notMem_text (n : Number) : '\n' ∉ n.text := by
  cases n with
  | integer i fits =>
      have hdigits := newline_notMem_toDigits i.natAbs
      change '\n' ∉ intText i
      unfold intText
      split
      · simpa using hdigits
      · exact hdigits
  | float x => exact x.newline_notMem_text

namespace Token

theorem hexChar_ne_newline : ∀ n < 16, hexChar n ≠ '\n' := by decide

theorem newline_notMem_escapeChar (c : Char) : '\n' ∉ escapeChar c := by
  unfold escapeChar
  iterate 7
    split
    next hc => decide
  split
  next hc =>
    have hhigh := hexChar_ne_newline (c.toNat / 16) (by omega)
    have hlow := hexChar_ne_newline (c.toNat % 16) (by omega)
    simp [hhigh.symm, hlow.symm]
  next _ _ _ _ hfeed _ _ _ =>
    intro hmem
    obtain rfl := List.mem_singleton.1 hmem
    exact hfeed (beq_self_eq_true _)

theorem newline_notMem_quote (s : String) : '\n' ∉ quote s := by
  simp only [quote, List.mem_cons, List.mem_append, List.mem_flatMap, not_or, not_exists, not_and]
  exact ⟨by decide, fun c _ ↦ newline_notMem_escapeChar c, by decide, nofun⟩

theorem newline_notMem_spell (t : Token) : '\n' ∉ t.spell := by
  cases t with
  | number n =>
      cases n with
      | none => exact List.not_mem_nil
      | some n => exact n.newline_notMem_text
  | string s =>
      cases s with
      | none => exact List.not_mem_nil
      | some s => exact newline_notMem_quote s
  | bool b => cases b <;> decide
  | brokenString | brokenScalar => exact List.not_mem_nil
  | _ => decide

end Token

theorem Value.oneLine_compact (v : Value) : Text.OneLine v.compact := by
  rw [Text.OneLine, compact, String.toList_ofList, compactChars, List.mem_flatMap]
  rintro ⟨t, _, ht⟩
  exact t.newline_notMem_spell ht

end Json

namespace Text

instance (s : String) : Decidable (OneLine s) := inferInstanceAs (Decidable (_ ∉ _))

@[simp] theorem oneLine_append {s t : String} : OneLine (s ++ t) ↔ OneLine s ∧ OneLine t := by
  simp [OneLine]

theorem oneLine_decimal (n : Nat) : OneLine (decimal n) := by
  rw [OneLine, decimal, String.toList_ofList]
  exact newline_notMem_toDigits n

theorem oneLine_intercalate {separator : String} {ss : List String} (h : OneLine separator)
    (hss : ∀ s ∈ ss, OneLine s) : OneLine (separator.intercalate ss) := by
  induction ss with
  | nil =>
      rw [String.intercalate_nil]
      decide
  | cons s ss ih =>
      rw [List.forall_mem_cons] at hss
      cases ss with
      | nil => exact String.intercalate_singleton ▸ hss.1
      | cons t ts =>
          rw [String.intercalate_cons_cons, oneLine_append, oneLine_append]
          exact ⟨⟨hss.1, h⟩, ih hss.2⟩

end Text

end Timelock
